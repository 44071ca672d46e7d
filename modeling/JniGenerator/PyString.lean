import Mathlib.Data.List.Basic
import Mathlib.Data.List.Infix

/-! Python 2 byte-string operations that `jni_generator.py` uses, on lists of
characters. Each one is structurally recursive, so the model runs in the kernel. -/

namespace JniGenerator

/-- A Python `str`. -/
abbrev Str := List Char

/-- The `\w` class of `re` on byte strings: ASCII letters, digits and `_`. -/
def isWord (c : Char) : Bool := c.isAlphanum || c == '_'

/-- The `\s` class, which is also what `str.strip()` removes. -/
def isSpace (c : Char) : Bool :=
  c == ' ' || c == '\t' || c == '\n' || c == '\r' || c == '\x0b' || c == '\x0c'

/-- `s.startswith(p)` -/
def startswith (s p : Str) : Bool := p.isPrefixOf s

/-- `s.endswith(p)` -/
def endswith (s p : Str) : Bool := p.isSuffixOf s

/-- `sub in s` -/
def contains : Str → Str → Bool
  | [], sub => sub.isEmpty
  | c :: s, sub => sub.isPrefixOf (c :: s) || contains s sub

/-- `replaceAux old new k s` replaces in `s` after skipping `k` characters of an
occurrence already replaced. -/
def replaceAux (old new : Str) : Nat → Str → Str
  | _, [] => []
  | k + 1, _ :: s => replaceAux old new k s
  | 0, c :: s =>
    if old.isPrefixOf (c :: s) then new ++ replaceAux old new (old.length - 1) s
    else c :: replaceAux old new 0 s

/-- `s.replace(old, new)` for a nonempty `old`: every occurrence, left to right. -/
def replace (s old new : Str) : Str := replaceAux old new 0 s

/-- `s.split(sep)` for a one-character separator. -/
def split (s : Str) (sep : Char) : List Str := s.splitOn sep

/-- `sep.join(parts)` -/
def join (sep : Str) (parts : List Str) : Str := sep.intercalate parts

/-- `s.strip()` -/
def strip (s : Str) : Str := ((s.dropWhile isSpace).reverse.dropWhile isSpace).reverse

/-- `s.lstrip()` -/
def lstrip (s : Str) : Str := s.dropWhile isSpace

/-- `s.rstrip()` -/
def rstrip (s : Str) : Str := (s.reverse.dropWhile isSpace).reverse

/-- `s.split(a + b)` for a two-character separator, read left to right: the
current part is kept reversed in `acc`, and `held` says whether its last
character is an `a` that may start a separator. -/
def splitPairAux (a b : Char) : Str → Bool → Str → List Str
  | acc, false, [] => [acc.reverse]
  | acc, true, [] => [(a :: acc).reverse]
  | acc, true, c :: s =>
    if c = b then acc.reverse :: splitPairAux a b [] false s
    else if c = a then splitPairAux a b (a :: acc) true s
    else splitPairAux a b (c :: a :: acc) false s
  | acc, false, c :: s =>
    if c = a then splitPairAux a b acc true s else splitPairAux a b (c :: acc) false s

/-- `s.split(a + b)` -/
def splitPair (s : Str) (a b : Char) : List Str := splitPairAux a b [] false s

example : splitPair "a::b:::c".toList ':' ':' = ["a".toList, "b".toList, ":c".toList] := by decide

/-- `s.splitlines()` on a byte string: `\n`, `\r` and `\r\n` end a line, and
a last line ending is not followed by an empty line. -/
def splitlinesAux : Str → Str → List Str
  | acc, [] => if acc = [] then [] else [acc.reverse]
  | acc, '\r' :: '\n' :: s => acc.reverse :: splitlinesAux [] s
  | acc, c :: s => if c = '\n' ∨ c = '\r' then acc.reverse :: splitlinesAux [] s
    else splitlinesAux (c :: acc) s

def splitlines (s : Str) : List Str := splitlinesAux [] s

@[simp] theorem startswith_iff {s p : Str} : startswith s p = true ↔ p <+: s := by
  simp [startswith]

@[simp] theorem endswith_iff {s p : Str} : endswith s p = true ↔ p <:+ s := by
  simp [endswith]

@[simp] theorem contains_iff {s sub : Str} : contains s sub = true ↔ sub <:+: s := by
  induction s with
  | nil => cases sub <;> simp [contains]
  | cons c s ih => simp [contains, ih, List.infix_cons_iff]

theorem dropWhile_of_head {p : Char → Bool} {l : Str} (h : ∀ c ∈ l.head?, p c = false) :
    l.dropWhile p = l := by
  cases l with
  | nil => rfl
  | cons c l => simp [List.dropWhile_cons_of_neg, h c rfl]

theorem strip_spaces_around {a s b : Str} (ha : ∀ c ∈ a, isSpace c = true)
    (hb : ∀ c ∈ b, isSpace c = true) (hhead : ∀ c ∈ s.head?, isSpace c = false)
    (hlast : ∀ c ∈ s.getLast?, isSpace c = false) : strip (a ++ s ++ b) = s := by
  cases s with
  | nil =>
    have hab : ∀ c ∈ a ++ b, isSpace c = true := by simpa using fun c h => h.elim (ha c) (hb c)
    simp [strip, List.dropWhile_eq_nil_iff.mpr hab]
  | cons x s =>
    have hx : isSpace x = false := hhead x rfl
    have h1 : (a ++ x :: s ++ b).dropWhile isSpace = x :: s ++ b := by
      rw [List.append_assoc, List.dropWhile_append_of_pos ha, List.cons_append,
        List.dropWhile_cons_of_neg (by simp [hx])]
    have h2 : (x :: s ++ b).reverse.dropWhile isSpace = (x :: s).reverse := by
      rw [List.reverse_append, List.dropWhile_append_of_pos (by simpa using hb)]
      exact dropWhile_of_head (by rw [List.head?_reverse]; exact hlast)
    simp only [strip, h1, h2, List.reverse_reverse]

theorem isSpace_eq_false_of_isWord {x : Char} (h : isWord x = true) : isSpace x = false := by
  cases hs : isSpace x with
  | false => rfl
  | true =>
    simp only [isSpace, Bool.or_eq_true, beq_iff_eq] at hs
    rcases hs with ((((h' | h') | h') | h') | h') | h' <;> subst h' <;> exact absurd h (by decide)

theorem isWord_eq_false_of_isSpace {x : Char} (h : isSpace x = true) : isWord x = false := by
  cases hw : isWord x with
  | false => rfl
  | true => simp [isSpace_eq_false_of_isWord hw] at h

theorem rstrip_append_spaces {l ws : Str} (hws : ∀ x ∈ ws, isSpace x = true)
    (hl : ∀ x ∈ l.getLast?, isSpace x = false) : rstrip (l ++ ws) = l := by
  unfold rstrip
  rw [List.reverse_append, List.dropWhile_append, if_pos (by simpa using fun x hx => hws x hx),
    dropWhile_of_head (by simpa [List.head?_reverse] using hl), List.reverse_reverse]

/-- `s.replace(c, new)` for one character `c`: each `c` becomes `new`. -/
theorem replace_char (c : Char) (new : Str) :
    ∀ s : Str, replace s [c] new = s.flatMap fun x => if x = c then new else [x]
  | [] => rfl
  | x :: s => by
    have ih := replace_char c new s
    unfold replace at ih ⊢
    by_cases h : x = c
    · subst h
      simp [replaceAux, ih]
    · simp [replaceAux, List.isPrefixOf, Ne.symm h, h, ih]

theorem replace_char_append (c : Char) (new a b : Str) :
    replace (a ++ b) [c] new = replace a [c] new ++ replace b [c] new := by
  simp only [replace_char, List.flatMap_append]

theorem replace_char_nil (c : Char) (s : Str) : replace s [c] [] = s.filter (· != c) := by
  rw [replace_char]
  induction s with
  | nil => rfl
  | cons x s ih => by_cases h : x = c <;> simp [h, ih]

theorem replace_char_of_not_mem {c : Char} {new s : Str} (h : c ∉ s) : replace s [c] new = s := by
  rw [replace_char]
  induction s with
  | nil => rfl
  | cons x s ih => simp [(List.ne_of_not_mem_cons h).symm, ih (List.not_mem_of_not_mem_cons h)]

theorem not_mem_replace_char {c : Char} {new : Str} (hc : c ∉ new) (s : Str) : c ∉ replace s [c] new := by
  rw [replace_char]
  simp only [List.mem_flatMap, not_exists, not_and]
  intro x _
  split <;> simp_all [eq_comm]

/-! ## Suffixes -/

theorem suffix_append_cases {α : Type} {l a b : List α} (h : l <:+ a ++ b) :
    l <:+ b ∨ ∃ a', a' ≠ [] ∧ a' <:+ a ∧ l = a' ++ b := by
  obtain ⟨t, ht⟩ := h
  rcases List.append_eq_append_iff.mp ht with ⟨a', rfl, rfl⟩ | ⟨c', rfl, rfl⟩
  · by_cases ha' : a' = []
    · subst ha'
      exact .inl (List.suffix_refl _)
    · exact .inr ⟨a', ha', List.suffix_append t a', rfl⟩
  · exact .inl (List.suffix_append c' l)

theorem head_mem_of_suffix {α : Type} {x : α} {l a : List α} (h : x :: l <:+ a) : x ∈ a :=
  h.subset (.head _)

theorem getLast?_of_suffix {α : Type} {v pre : List α} (h : v <:+ pre) (hv : v ≠ []) :
    v.getLast? = pre.getLast? := by
  obtain ⟨u, rfl⟩ := h
  obtain ⟨v0, x, rfl⟩ := (List.eq_nil_or_concat v).resolve_left hv
  simp

/-- Two texts that end in `c` and then a part without `c` split alike. -/
theorem append_cons_eq_append_cons {α : Type} {c : α} {u l a m : List α} (hl : c ∉ l) (hm : c ∉ m)
    (h : u ++ c :: l = a ++ c :: m) : u = a ∧ l = m := by
  rcases List.append_eq_append_iff.mp h with ⟨a', rfl, h'⟩ | ⟨c', rfl, h'⟩
  · cases a' with
    | nil => exact ⟨(List.append_nil u).symm, (List.cons.inj h').2⟩
    | cons y a' =>
      obtain ⟨-, h'⟩ := List.cons.inj h'
      exact absurd (h' ▸ List.mem_append_right a' (List.mem_cons_self c m)) hl
  · cases c' with
    | nil => exact ⟨List.append_nil a, (List.cons.inj h').2.symm⟩
    | cons y c' =>
      obtain ⟨-, h'⟩ := List.cons.inj h'
      exact absurd (h' ▸ List.mem_append_right c' (List.mem_cons_self c l)) hm

theorem eq_of_cons_suffix_append_cons {α : Type} {c : α} {l a m : List α} (hl : c ∉ l) (hm : c ∉ m)
    (h : c :: l <:+ a ++ c :: m) : l = m :=
  let ⟨_, h⟩ := h
  (append_cons_eq_append_cons hl hm h).2

/-- A suffix without `c` of a text with a `c` is a suffix of what follows its last `c`. -/
theorem suffix_of_suffix_append_cons {α : Type} {c : α} {l a b : List α} (hl : c ∉ l) (h : l <:+ a ++ c :: b) :
    l <:+ b := by
  obtain ⟨t, ht⟩ := h
  rcases List.append_eq_append_iff.mp ht with ⟨a', -, rfl⟩ | ⟨c', -, h'⟩
  · exact absurd (List.mem_append_right a' (List.mem_cons_self c b)) hl
  · cases c' with
    | nil =>
      rw [List.nil_append] at h'
      exact absurd (h' ▸ List.mem_cons_self c b) hl
    | cons y c' => exact ⟨c', (List.cons.inj h').2.symm⟩

/-- An infix without `c` of a text with a `c` lies on one side of it. -/
theorem infix_append_cons {α : Type} {c : α} {l a b : List α} (hl : c ∉ l) (h : l <:+: a ++ c :: b) :
    l <:+: a ∨ l <:+: b := by
  obtain ⟨s, t, ht⟩ := h
  rcases List.append_eq_append_iff.mp ht with ⟨a', rfl, -⟩ | ⟨c', hc', h'⟩
  · exact .inl ⟨s, a', rfl⟩
  · cases c' with
    | nil => exact .inl ⟨s, [], by simpa using hc'⟩
    | cons y c' =>
      obtain ⟨rfl, rfl⟩ := List.cons.inj h'
      obtain ⟨u, hu⟩ := suffix_of_suffix_append_cons hl ⟨s, hc'⟩
      exact .inr ⟨u, t, by rw [← hu]; rfl⟩

theorem contains_append_cons {c : Char} {sub : Str} (hc : c ∉ sub) (a b : Str) :
    contains (a ++ c :: b) sub = (contains a sub || contains b sub) := by
  refine Bool.eq_iff_iff.mpr ?_
  simp only [contains_iff, Bool.or_eq_true]
  exact ⟨infix_append_cons hc, fun h => h.elim (fun h => h.trans ⟨[], c :: b, rfl⟩)
    fun h => h.trans ⟨a ++ [c], [], by simp⟩⟩

theorem not_cons_suffix_append_cons {α : Type} {c d : α} {l a m : List α} (hcd : c ≠ d) (hl : d ∉ l)
    (hm : c ∉ m) : ¬ c :: l <:+ a ++ d :: m := by
  rintro ⟨t, h⟩
  rcases List.append_eq_append_iff.mp h with ⟨a', -, h⟩ | ⟨c', -, h⟩
  · cases a' with
    | nil => exact hcd (List.cons.inj h).1
    | cons y a' =>
      obtain ⟨-, h⟩ := List.cons.inj h
      exact hl (h ▸ List.mem_append_right a' (List.mem_cons_self d m))
  · cases c' with
    | nil => exact hcd (List.cons.inj h).1.symm
    | cons y c' =>
      obtain ⟨-, h⟩ := List.cons.inj h
      exact hm (h ▸ List.mem_append_right c' (List.mem_cons_self c l))

theorem split_join {c : Char} {ls : List Str} (hc : ∀ l ∈ ls, c ∉ l) (hls : ls ≠ []) :
    split (join [c] ls) c = ls := List.splitOn_intercalate ls c hc hls

theorem join_singleton (sep t : Str) : join sep [t] = t := by simp [join, List.intercalate]

theorem join_cons_cons (sep t u : Str) (ts : List Str) :
    join sep (t :: u :: ts) = t ++ sep ++ join sep (u :: ts) := by
  simp [join, List.intercalate, List.intersperse_cons_cons]

theorem join_cons_eq (sep t : Str) : ∀ ts : List Str, ∃ r, join sep (t :: ts) = t ++ r
  | [] => ⟨[], by simp [join_singleton]⟩
  | u :: ts => ⟨sep ++ join sep (u :: ts), by simp [join_cons_cons]⟩

theorem mem_join {c : Char} {sep : Str} :
    ∀ {ls : List Str}, c ∈ join sep ls → c ∈ sep ∨ ∃ l ∈ ls, c ∈ l
  | [], h => by simp [join, List.intercalate] at h
  | [t], h => .inr ⟨t, by simp, by rwa [join_singleton] at h⟩
  | t :: u :: ts, h => by
    rw [join_cons_cons, List.mem_append, List.mem_append] at h
    rcases h with (h | h) | h
    · exact .inr ⟨t, by simp, h⟩
    · exact .inl h
    · rcases mem_join h with h | ⟨l, hl, h⟩
      · exact .inl h
      · exact .inr ⟨l, List.mem_cons_of_mem t hl, h⟩

theorem infix_join_of_mem {sep t : Str} : ∀ {ls : List Str}, t ∈ ls → t <:+: join sep ls
  | [_], h => by rw [List.mem_singleton.mp h, join_singleton]
  | u :: v :: ts, h => by
    rw [join_cons_cons]
    rcases List.mem_cons.mp h with rfl | h
    · exact ⟨[], sep ++ join sep (v :: ts), by simp⟩
    · exact (infix_join_of_mem h).trans (List.suffix_append _ _).isInfix

theorem join_append_singleton_eq (sep t : Str) : ∀ ts : List Str, ∃ r, join sep (ts ++ [t]) = r ++ t
  | [] => ⟨[], by simp [join_singleton]⟩
  | u :: ts => by
    obtain ⟨r, hr⟩ := join_append_singleton_eq sep t ts
    cases ts with
    | nil => exact ⟨u ++ sep, by simp [join_cons_cons, join_singleton]⟩
    | cons v ts => exact ⟨u ++ sep ++ r, by simp_all [join_cons_cons]⟩

theorem replace_char_join {c : Char} (new : Str) : ∀ {ls : List Str}, (∀ l ∈ ls, c ∉ l) →
    replace (join [c] ls) [c] new = join new ls
  | [], _ => rfl
  | [t], h => by rw [join_singleton, join_singleton, replace_char_of_not_mem (h t (.head _))]
  | t :: u :: ts, h => by
    rw [join_cons_cons, join_cons_cons, replace_char_append, replace_char_append,
      replace_char_of_not_mem (h t (.head _)), replace_char_join new fun l hl => h l (.tail _ hl)]
    simp [replace, replaceAux]

theorem join_append_singleton (sep t : Str) :
    ∀ {ls : List Str}, ls ≠ [] → join sep (ls ++ [t]) = join sep ls ++ sep ++ t
  | [u], _ => by rw [List.singleton_append, join_cons_cons, join_singleton, join_singleton]
  | u :: v :: ts, _ => by
    rw [List.cons_append, List.cons_append, join_cons_cons, ← List.cons_append,
      join_append_singleton sep t (List.cons_ne_nil v ts), join_cons_cons]
    simp

theorem join_cons_append_head (sep a u : Str) (rest : List Str) :
    join sep ((a ++ u) :: rest) = a ++ join sep (u :: rest) := by
  cases rest <;> simp [join_singleton, join_cons_cons]

/-- Joining with a longer separator is joining with its first character the
parts after the first prefixed by the rest of it. -/
theorem join_cons_sep (c : Char) (sep t : Str) :
    ∀ ts : List Str, join (c :: sep) (t :: ts) = join [c] (t :: ts.map (sep ++ ·))
  | [] => by simp [join_singleton]
  | u :: ts => by
    rw [join_cons_cons, join_cons_sep c sep u ts, List.map_cons, join_cons_cons, join_cons_append_head]
    simp

theorem replace_char_join_sep {c : Char} {sep : Str} (new : Str) (hsep : c ∉ sep) :
    ∀ ls : List Str, replace (join sep ls) [c] new = join sep (ls.map (replace · [c] new))
  | [] => rfl
  | [t] => by rw [join_singleton, List.map_singleton, join_singleton]
  | t :: u :: ts => by
    rw [join_cons_cons, replace_char_append, replace_char_append, replace_char_of_not_mem hsep,
      replace_char_join_sep new hsep (u :: ts), List.map_cons _ t, List.map_cons _ u, join_cons_cons]

theorem replace_char_char (c d : Char) (s : Str) : replace s [c] [d] = s.map fun x => if x = c then d else x := by
  rw [replace_char]
  induction s with
  | nil => rfl
  | cons x s ih => by_cases h : x = c <;> simp [h, ih]

/-! ## Identifiers -/

/-- A nonempty run of `\w`, which is how the patterns see a Java identifier. -/
def IsIdent (s : Str) : Prop := s ≠ [] ∧ ∀ x ∈ s, isWord x = true

instance : DecidablePred IsIdent := fun _ => inferInstanceAs (Decidable (_ ∧ _))

theorem IsIdent.not_mem {s : Str} (h : IsIdent s) {x : Char} (hx : isWord x = false) : x ∉ s :=
  fun hm => by simp [h.2 x hm] at hx

end JniGenerator
