import BoundedGo.Parse.Source
import BoundedGo.Proofs.Occurrence

/-!
Which uses of channels the check of a file finds. A program uses channels through their types, by
sends, by `select` statements and by receives. The first three are nodes of their own kind and are
forbidden as such. A receive is an operator in front of its operand like any other, and the check
goes on to the operand without looking at the operator.
Main statement: in a file that is accepted, receives are the only uses of channels
(`channelUses_accepted`).
-/
namespace BoundedGo

namespace Node

/-- The nodes by which a program uses a channel. -/
inductive UsesChannel : Node → Prop
  | type (direction : ChannelDirection) (element : TypeExpr) :
    UsesChannel (.type (.channel direction element))
  | send (channel value : Expr) : UsesChannel (.stmt (.send channel value))
  | select (clauses : List CommClause) : UsesChannel (.stmt (.select clauses))
  | receive (operand : Expr) : UsesChannel (.expr (.unary .receive operand))

def isReceive : Node → Bool
  | .expr (.unary .receive _) => true
  | _ => false

theorem usesChannel_of_isReceive {n : Node} (h : n.isReceive) : n.UsesChannel := by
  unfold isReceive at h
  split at h
  · exact .receive _
  · cases h

theorem usesChannel_of_feature? {n : Node} (h : n.feature? = some .channel) : n.UsesChannel := by
  unfold feature? at h
  split at h
  case h_4 => exact .send _ _
  case h_5 => exact .select _
  case h_8 => exact .type _ _
  all_goals cases h

theorem feature?_of_isReceive {n : Node} (h : n.isReceive) : n.feature? = none := by
  unfold isReceive at h
  split at h
  · rfl
  · cases h

/-- A use of a channel is forbidden unless it is a receive. -/
theorem UsesChannel.isReceive_or_feature? {n : Node} (h : n.UsesChannel) :
    n.isReceive ∨ n.feature? = some .channel := by
  cases h with
  | receive => exact .inl rfl
  | type => exact .inr rfl
  | send => exact .inr rfl
  | select => exact .inr rfl

/-- A node is allowed exactly if it is no use of a channel but a receive, and is not forbidden for
another reason. -/
theorem feature?_eq_none_iff (n : Node) :
    n.feature? = none ↔
      (n.UsesChannel → n.isReceive) ∧ (n.feature? = none ∨ n.feature? = some .channel) := by
  constructor
  · intro hallowed
    refine ⟨fun huse => ?_, .inl hallowed⟩
    apply huse.isReceive_or_feature?.resolve_right
    simp [hallowed]
  · intro ⟨hreceive, hfeature⟩
    rcases hfeature with hnone | hchannel
    · exact hnone
    · exact feature?_of_isReceive (hreceive (usesChannel_of_feature? hchannel))

end Node

/-- A file is accepted exactly if all uses of channels in it are receives, at any depth, and nothing
in it is forbidden for another reason. So an accepted file uses no channels exactly if it receives
nothing. -/
theorem channelUses_accepted (file : File) :
    (file.validate = .ok () ↔
      (∀ n, file.Holds n → n.UsesChannel → n.isReceive) ∧
        ∀ n, file.Holds n → n.feature? = none ∨ n.feature? = some .channel) ∧
    ((file.validate = .ok () ∧ ∀ n, file.Holds n → ¬ n.UsesChannel) ↔
      file.validate = .ok () ∧ ∀ n, file.Holds n → ¬ n.isReceive) := by
  have haccepted : file.validate = .ok () ↔
      (∀ n, file.Holds n → n.UsesChannel → n.isReceive) ∧
        ∀ n, file.Holds n → n.feature? = none ∨ n.feature? = some .channel := by
    rw [file.validate_eq_ok_iff, file.violations_eq_nil_iff]
    constructor
    · intro hallowed
      have hboth := fun (n : Node) hn => n.feature?_eq_none_iff.mp (hallowed n hn)
      exact ⟨fun n hn => (hboth n hn).1, fun n hn => (hboth n hn).2⟩
    · intro ⟨hreceive, hfeature⟩ n hn
      exact n.feature?_eq_none_iff.mpr ⟨hreceive n hn, hfeature n hn⟩
  refine ⟨haccepted, and_congr_right fun hvalid => ?_⟩
  constructor
  · intro hnone n hn hreceive
    exact hnone n hn (Node.usesChannel_of_isReceive hreceive)
  · intro hnone n hn huse
    exact hnone n hn ((haccepted.mp hvalid).1 n hn huse)

/-- A program that waits for a clock. -/
def clock : String :=
  "package main\n\nimport \x22time\x22\n\nfunc main() \x7b\n\tat := <-time.After(5)\n" ++
    "\t_ = at\n\x7d\n"

/-- Whether a source is accepted although it receives something in one of its declarations. -/
def receivesUnnoticed (source : String) : Bool :=
  (parseFile source).toOption.any fun file =>
    file.validate = .ok () &&
      file.decls.any fun d => ((Node.decl d).preorder []).any fun visit => visit.2.isReceive

theorem exists_of_receivesUnnoticed {source : String} (h : receivesUnnoticed source) :
    ∃ file n, parseFile source = .ok file ∧ file.validate = .ok () ∧ file.Holds n ∧
      n.isReceive := by
  unfold receivesUnnoticed at h
  cases hparse : parseFile source with
  | error e =>
    rw [hparse] at h
    cases h
  | ok file =>
    rw [hparse] at h
    obtain ⟨hvalid, hfound⟩ := Bool.and_eq_true_iff.mp h
    obtain ⟨d, hd, hfound⟩ := List.any_eq_true.mp hfound
    obtain ⟨visit, hvisit, hreceive⟩ := List.any_eq_true.mp hfound
    have hwithin : Node.Within visit.2 (.decl d) :=
      Node.mem_preorder_iff.mp (List.mem_map_of_mem hvisit)
    exact ⟨file, visit.2, rfl, of_decide_eq_true hvalid, ⟨d, hd, hwithin⟩, hreceive⟩

/-- A receive is accepted, although it uses a channel. -/
theorem receive_accepted :
    ∃ file n, parseFile clock = .ok file ∧ file.validate = .ok () ∧ file.Holds n ∧
      n.UsesChannel := by
  have hrun : receivesUnnoticed clock := by decide +kernel
  obtain ⟨file, n, hparse, hvalid, hholds, hreceive⟩ := exists_of_receivesUnnoticed hrun
  exact ⟨file, n, hparse, hvalid, hholds, Node.usesChannel_of_isReceive hreceive⟩

end BoundedGo
