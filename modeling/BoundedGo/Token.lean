import BoundedGo.Position

/-!
Tokens of Go. Every reserved word and every operator of the language is a token, also those that
no program of the bounded fragment may use.
-/
namespace BoundedGo

/-- The reserved words. -/
inductive Keyword
  | break_ | case_ | chan | const | continue_ | default | defer | else_ | fallthrough | for_ | func
  | go | goto | if_ | import_ | interface | map | package | range | return_ | select | struct
  | switch | type | var
  deriving DecidableEq, Repr

namespace Keyword

def all : List Keyword :=
  [.break_, .case_, .chan, .const, .continue_, .default, .defer, .else_, .fallthrough, .for_,
   .func, .go, .goto, .if_, .import_, .interface, .map, .package, .range, .return_, .select,
   .struct, .switch, .type, .var]

def spelling : Keyword → String
  | .break_ => "break" | .case_ => "case" | .chan => "chan" | .const => "const"
  | .continue_ => "continue" | .default => "default" | .defer => "defer" | .else_ => "else"
  | .fallthrough => "fallthrough" | .for_ => "for" | .func => "func" | .go => "go"
  | .goto => "goto" | .if_ => "if" | .import_ => "import" | .interface => "interface"
  | .map => "map" | .package => "package" | .range => "range" | .return_ => "return"
  | .select => "select" | .struct => "struct" | .switch => "switch" | .type => "type"
  | .var => "var"

def ofSpelling? (s : String) : Option Keyword :=
  all.find? (fun k => k.spelling = s)

end Keyword

/-- The basic literals, by the form of their text. -/
inductive LiteralKind
  | int | float | imag | char | string
  deriving DecidableEq, Repr

/-- Operators and punctuation, named for their glyphs. -/
inductive Symbol
  | ampCaretAssign | shlAssign | shrAssign | ellipsis
  | ampCaret | ampAmp | barBar | arrow | plusPlus | minusMinus | eq | ne | le | ge | define
  | plusAssign | minusAssign | starAssign | slashAssign | percentAssign | ampAssign | barAssign
  | caretAssign | shl | shr
  | parenOpen | parenClose | braceOpen | braceClose | bracketOpen | bracketClose
  | comma | dot | semicolon | colon | assign | plus | minus | star | slash | percent | amp | bar
  | caret | bang | lt | gt | tilde
  deriving DecidableEq, Repr

namespace Symbol

/-- All symbols, the longer ones first, so that the first match is the longest. -/
def all : List Symbol :=
  [.ampCaretAssign, .shlAssign, .shrAssign, .ellipsis,
   .ampCaret, .ampAmp, .barBar, .arrow, .plusPlus, .minusMinus, .eq, .ne, .le, .ge, .define,
   .plusAssign, .minusAssign, .starAssign, .slashAssign, .percentAssign, .ampAssign, .barAssign,
   .caretAssign, .shl, .shr,
   .parenOpen, .parenClose, .braceOpen, .braceClose, .bracketOpen, .bracketClose,
   .comma, .dot, .semicolon, .colon, .assign, .plus, .minus, .star, .slash, .percent, .amp, .bar,
   .caret, .bang, .lt, .gt, .tilde]

def spelling : Symbol → String
  | .ampCaretAssign => "&^=" | .shlAssign => "<<=" | .shrAssign => ">>=" | .ellipsis => "..."
  | .ampCaret => "&^" | .ampAmp => "&&" | .barBar => "||" | .arrow => "<-" | .plusPlus => "++"
  | .minusMinus => "--" | .eq => "==" | .ne => "!=" | .le => "<=" | .ge => ">="
  | .define => ":=" | .plusAssign => "+=" | .minusAssign => "-=" | .starAssign => "*="
  | .slashAssign => "/=" | .percentAssign => "%=" | .ampAssign => "&=" | .barAssign => "|="
  | .caretAssign => "^=" | .shl => "<<" | .shr => ">>" | .parenOpen => "(" | .parenClose => ")"
  | .braceOpen => "\x7b" | .braceClose => "\x7d" | .bracketOpen => "[" | .bracketClose => "]"
  | .comma => "," | .dot => "." | .semicolon => ";" | .colon => ":" | .assign => "="
  | .plus => "+" | .minus => "-" | .star => "*" | .slash => "/" | .percent => "%" | .amp => "&"
  | .bar => "|" | .caret => "^" | .bang => "!" | .lt => "<" | .gt => ">" | .tilde => "~"

/-- The longest symbol that the text begins with. -/
def leading? (cs : List Char) : Option Symbol :=
  all.find? (fun s => s.spelling.toList.isPrefixOf cs)

end Symbol

inductive TokenKind
  | eof
  | ident
  | keyword (word : Keyword)
  | literal (kind : LiteralKind)
  | symbol (symbol : Symbol)
  deriving DecidableEq, Repr

namespace TokenKind

/-- The tokens after which the end of a line is the end of a statement. -/
def endsStatement : TokenKind → Bool
  | .ident | .literal _ => true
  | .keyword w => w = .break_ || w = .continue_ || w = .fallthrough || w = .return_
  | .symbol s =>
    s = .plusPlus || s = .minusMinus || s = .parenClose || s = .bracketClose || s = .braceClose
  | .eof => false

end TokenKind

/-- A token with its text. A semicolon that stands for the end of a line has the text of a line
feed, one that stands for the end of the source has none. -/
structure Token where
  kind : TokenKind
  lexeme : String
  span : Span
  deriving DecidableEq, Repr

end BoundedGo
