import JniGenerator.PyString

/-! Python's `re` as a backtracking matcher. Alternatives are tried left to
right, greedy loops try one more iteration before stopping and lazy loops the
other way round, and a search tries the start positions left to right: the
order `sre` explores, so a match here is the match Python returns. -/

namespace JniGenerator

/-- Character classes of `re` on byte strings (no `LOCALE` or `UNICODE` flag). -/
inductive CharClass where
  | lit (c : Char)
  | word
  | space
  | digit
  | any
  | union (a b : CharClass)
  | neg (a : CharClass)
  deriving DecidableEq, Repr

namespace CharClass

def test : CharClass → Char → Bool
  | lit c, x => x == c
  | word, x => isWord x
  | space, x => isSpace x
  | digit, x => x.isDigit
  | any, _ => true
  | union a b, x => a.test x || b.test x
  | neg a, x => !a.test x

/-- `.` without `DOTALL`. -/
def dot : CharClass := neg (lit '\n')

end CharClass

/-- Regular expressions with named groups; `eol` is `$` under `MULTILINE`. -/
inductive Regex where
  | empty
  | chr (k : CharClass)
  | seq (a b : Regex)
  | alt (a b : Regex)
  | star (a : Regex) (greedy : Bool)
  | group (name : String) (a : Regex)
  | eol
  deriving DecidableEq, Repr

/-- Captured groups, the most recent capture first. -/
abbrev Groups := List (String × Str)

/-- What a matcher hands to its continuation: the rest of the input and the groups. -/
abbrev Cont := Str → Groups → Option (Str × Groups)

/-- A loop over `body` with at most `n` more iterations. Each iteration must
consume input, so `n = s.length` bounds every loop of `re`'s semantics. -/
def starLoop (body : Str → Groups → Cont → Option (Str × Groups)) (greedy : Bool) :
    Nat → Str → Groups → Cont → Option (Str × Groups)
  | 0, s, g, k => k s g
  | n + 1, s, g, k =>
    let again := fun _ : Unit => body s g fun s' g' =>
      if s'.length < s.length then starLoop body greedy n s' g' k else none
    if greedy then (again ()).orElse fun _ => k s g else (k s g).orElse again

namespace Regex

/-- Match `r` at the front of `s`, then run the continuation `k` on what is left. -/
def m : Regex → Str → Groups → Cont → Option (Str × Groups)
  | empty, s, g, k => k s g
  | chr _, [], _, _ => none
  | chr c, x :: s, g, k => if c.test x then k s g else none
  | seq a b, s, g, k => a.m s g fun s' g' => b.m s' g' k
  | alt a b, s, g, k => (a.m s g k).orElse fun _ => b.m s g k
  | star a greedy, s, g, k => starLoop a.m greedy s.length s g k
  | group n a, s, g, k => a.m s g fun s' g' => k s' ((n, s.take (s.length - s'.length)) :: g')
  | eol, s, g, k => if s.head? = none ∨ s.head? = some '\n' then k s g else none

/-! ## Derived forms -/

def lit : List Char → Regex
  | [] => empty
  | [c] => chr (.lit c)
  | c :: cs => seq (chr (.lit c)) (lit cs)

/-- A sequence of regexes. -/
def cat : List Regex → Regex
  | [] => empty
  | [r] => r
  | r :: rs => seq r (cat rs)

def opt (r : Regex) : Regex := alt r empty
def plus (r : Regex) : Regex := seq r (star r true)
def plusLazy (r : Regex) : Regex := seq r (star r false)
def many (r : Regex) : Regex := star r true
def manyLazy (r : Regex) : Regex := star r false

/-! ## Matching, searching, iterating -/

/-- A match found by a search: the text skipped before it, the matched text,
the text after it and its groups. -/
structure Match where
  before : Str
  text : Str
  after : Str
  groups : Groups
  deriving DecidableEq, Repr

/-- `m.group(name)`, `None` when the group did not take part in the match. -/
def Match.group (mt : Match) (name : String) : Option Str := mt.groups.lookup name

/-- `re.match(r, s)`: a match anchored at the start of `s`. -/
def matchPrefix (r : Regex) (s : Str) : Option (Str × Groups) :=
  r.m s [] fun s' g => some (s', g)

def searchAux (r : Regex) (before : Str) : Str → Option Match
  | [] => (r.matchPrefix []).map fun (rest, g) => ⟨before.reverse, [], rest, g⟩
  | c :: s =>
    match r.matchPrefix (c :: s) with
    | some (rest, g) => some ⟨before.reverse, (c :: s).take ((c :: s).length - rest.length), rest, g⟩
    | none => searchAux r (c :: before) s

/-- `re.search(r, s)` -/
def search (r : Regex) (s : Str) : Option Match := r.searchAux [] s

/-- After an empty match the next search starts one character later; none of
the program's patterns matches the empty string. -/
def findIterAux (r : Regex) : Nat → Str → List Match
  | 0, _ => []
  | n + 1, s =>
    match r.search s with
    | none => []
    | some mt => mt :: findIterAux r n (if mt.text = [] then mt.after.drop 1 else mt.after)

/-- `re.finditer(r, s)` -/
def findIter (r : Regex) (s : Str) : List Match := r.findIterAux (s.length + 1) s

def subAux (r : Regex) (repl : Match → Str) : Nat → Str → Str
  | 0, s => s
  | n + 1, s =>
    match r.search s with
    | none => s
    | some mt =>
      mt.before ++ repl mt ++
        if mt.text = [] then mt.after.take 1 ++ subAux r repl n (mt.after.drop 1)
        else subAux r repl n mt.after

/-- `re.sub(r, repl, s)` with a replacement function. -/
def sub (r : Regex) (repl : Match → Str) (s : Str) : Str := r.subAux repl (s.length + 1) s

end Regex

end JniGenerator
