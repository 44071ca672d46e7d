import JniGenerator.Regex
import Mathlib.Data.Option.Basic

/-!
# What one match does

The equations of `Regex.m` for each constructor and derived form, and the
facts about loops over a character class that the extractors' proofs rest on.
A loop over a class, on `w ++ rest` with `w` in the class:

* `starLoop_chr_eq_of_some`: hands `rest` to its continuation when that
  succeeds and, for a greedy loop, `rest` does not start in the class, for a
  lazy one, every earlier stopping point fails;
* `starLoop_chr_eq_of_some_last`: a greedy loop gives its last character back
  when its continuation fails after the whole run and succeeds before that
  character;
* `starLoop_chr_eq_none`: fails when its continuation fails at every stopping
  point;
* `starLoop_chr_eq_some`: conversely, a successful loop consumed a run of the
  class.
-/

namespace JniGenerator

namespace Regex

variable {s : Str} {g : Groups} {k : Cont} {r : Str × Groups}

@[simp] theorem m_empty : empty.m s g k = k s g := rfl

@[simp] theorem m_chr_nil (c : CharClass) : (chr c).m [] g k = none := rfl

@[simp] theorem m_chr_cons (c : CharClass) (x : Char) :
    (chr c).m (x :: s) g k = if c.test x then k s g else none := rfl

@[simp] theorem m_seq (a b : Regex) : (seq a b).m s g k = a.m s g fun s' g' => b.m s' g' k := rfl

@[simp] theorem m_alt (a b : Regex) : (alt a b).m s g k = (a.m s g k).orElse fun _ => b.m s g k := rfl

@[simp] theorem m_group (n : String) (a : Regex) :
    (group n a).m s g k = a.m s g fun s' g' => k s' ((n, s.take (s.length - s'.length)) :: g') := rfl

theorem m_star (a : Regex) (greedy : Bool) : (star a greedy).m s g k = starLoop a.m greedy s.length s g k :=
  rfl

theorem m_lit_cons (c : Char) (cs : Str) :
    (lit (c :: cs)).m s g k = (chr (.lit c)).m s g fun s' g' => (lit cs).m s' g' k := by
  cases cs <;> rfl

theorem m_cat_cons (a : Regex) (rs : List Regex) :
    (cat (a :: rs)).m s g k = a.m s g fun s' g' => (cat rs).m s' g' k := by
  cases rs <;> rfl

theorem m_cat_append (rs₁ rs₂ : List Regex) :
    (cat (rs₁ ++ rs₂)).m s g k = (cat rs₁).m s g fun s' g' => (cat rs₂).m s' g' k := by
  induction rs₁ generalizing s g with
  | nil => rfl
  | cons a rs ih => simp only [List.cons_append, m_cat_cons, ih]

@[simp] theorem m_opt (a : Regex) : (opt a).m s g k = (a.m s g k).orElse fun _ => k s g := rfl

@[simp] theorem m_lit_append (l : Str) : (lit l).m (l ++ s) g k = k s g := by
  induction l generalizing k with
  | nil => rfl
  | cons c cs ih => simp [m_lit_cons, ih, CharClass.test]

/-- What a group captures around a match of `w` that leaves `rest`. -/
@[simp] theorem take_length_sub_append (w rest : Str) :
    (w ++ rest).take ((w ++ rest).length - rest.length) = w := by
  simp

/-- The same, peeled one part at a time, for a capture whose input is written
further apart. -/
@[simp] theorem take_length_sub_append_left (a b c : Str) (h : c.length ≤ b.length) :
    (a ++ b).take ((a ++ b).length - c.length) = a ++ b.take (b.length - c.length) := by
  rw [List.take_append_eq_append_take, List.take_of_length_le (by simp; omega), List.length_append]
  congr 2
  omega

@[simp] theorem take_length_sub_cons (x : Char) (b c : Str) (h : c.length ≤ b.length) :
    (x :: b).take ((x :: b).length - c.length) = x :: b.take (b.length - c.length) := by
  rw [List.length_cons, show b.length + 1 - c.length = (b.length - c.length) + 1 by omega, List.take_succ_cons]

theorem m_lit_append_split (a b : Str) :
    (lit (a ++ b)).m s g k = (lit a).m s g fun s' g' => (lit b).m s' g' k := by
  induction a generalizing s g with
  | nil => rfl
  | cons c cs ih => simp only [List.cons_append, m_lit_cons, ih]

theorem m_eol_of_head (h : s.head? = none ∨ s.head? = some '\n') : eol.m s g k = k s g := by
  simp only [m, if_pos h]

theorem m_eol_cons {c : Char} (hc : c ≠ '\n') : eol.m (c :: s) g k = none := by
  simp [m, hc]

theorem m_lit_eq_some {l : Str} (h : (lit l).m s g k = some r) : ∃ s', s = l ++ s' ∧ k s' g = some r := by
  induction l generalizing s k with
  | nil => exact ⟨s, rfl, h⟩
  | cons c cs ih =>
    rw [m_lit_cons] at h
    cases s with
    | nil => simp at h
    | cons x s =>
      simp only [m_chr_cons, CharClass.test, beq_iff_eq] at h
      split at h
      · next hx =>
        obtain ⟨s', rfl, hk⟩ := ih h
        exact ⟨s', by rw [hx]; rfl, hk⟩
      · cases h

theorem m_lit_eq_none {l : Str} (h : ¬ l <+: s) : (lit l).m s g k = none := by
  cases hm : (lit l).m s g k with
  | none => rfl
  | some r =>
    obtain ⟨s', rfl, -⟩ := m_lit_eq_some hm
    exact absurd (List.prefix_append l s') h

theorem m_chr_eq_some {c : CharClass} (h : (chr c).m s g k = some r) :
    ∃ x s', s = x :: s' ∧ c.test x = true ∧ k s' g = some r := by
  cases s with
  | nil => cases h
  | cons x s =>
    simp only [m_chr_cons] at h
    split at h
    · exact ⟨x, s, rfl, ‹_›, h⟩
    · cases h

/-- A lazy loop stops at the first occurrence of a two-character literal
`[a, b]` with `a ≠ b`: at no earlier point of a text without it. -/
theorem m_lit_pair_drop_eq_none {a b : Char} (hab : a ≠ b) {P : Str} (hP : ¬ [a, b] <:+: P) {j : Nat}
    (hj : j < P.length) : (lit [a, b]).m (P.drop j ++ a :: b :: s) g k = none := by
  refine m_lit_eq_none fun ⟨t, ht⟩ => ?_
  rw [List.drop_eq_getElem_cons hj] at ht
  cases hd : P.drop (j + 1) with
  | nil =>
    rw [hd] at ht
    simp only [List.cons_append, List.nil_append, List.cons.injEq] at ht
    exact hab ht.2.1.symm
  | cons y u =>
    rw [hd] at ht
    simp only [List.cons_append, List.cons.injEq] at ht
    obtain ⟨hx, hy, -⟩ := ht
    refine hP ⟨P.take j, u, ?_⟩
    have := List.take_append_drop j P
    rw [List.drop_eq_getElem_cons hj, hd, ← hx, ← hy] at this
    simpa using this

/-! ## Loops over a character class -/

variable {cls : CharClass} {greedy : Bool} {w rest : Str}

theorem m_chr_drop_eq_none {j : Nat} (hj : j < w.length) (hw : ∀ x ∈ w, cls.test x = false) :
    (chr cls).m (w.drop j ++ rest) g k = none := by
  rw [List.drop_eq_getElem_cons hj, List.cons_append, m_chr_cons, hw _ (List.getElem_mem hj)]
  rfl

theorem starLoop_zero (body : Str → Groups → Cont → Option (Str × Groups)) :
    starLoop body greedy 0 s g k = k s g := rfl

theorem starLoop_chr_succ_nil (n : Nat) : starLoop (chr cls).m greedy (n + 1) [] g k = k [] g := by
  cases greedy <;> simp [starLoop]

theorem starLoop_chr_succ_cons (n : Nat) (x : Char) :
    starLoop (chr cls).m greedy (n + 1) (x :: s) g k =
      if greedy then
        ((if cls.test x then starLoop (chr cls).m greedy n s g k else none).orElse fun _ => k (x :: s) g)
      else (k (x :: s) g).orElse fun _ => if cls.test x then starLoop (chr cls).m greedy n s g k else none := by
  simp [starLoop]

theorem starLoop_chr_eq_of_some (hw : ∀ x ∈ w, cls.test x = true)
    (hrest : greedy = true → ∀ x ∈ rest.head?, cls.test x = false) {n : Nat} (hn : w.length ≤ n) (hk : k rest g = some r)
    (hlazy : greedy = false → ∀ j < w.length, k (w.drop j ++ rest) g = none) :
    starLoop (chr cls).m greedy n (w ++ rest) g k = some r := by
  induction w generalizing n with
  | nil =>
    cases n with
    | zero => exact hk
    | succ n =>
      cases rest with
      | nil => rw [List.nil_append, starLoop_chr_succ_nil, hk]
      | cons x s =>
        rw [List.nil_append, starLoop_chr_succ_cons]
        cases greedy with
        | true => simp [hrest rfl x rfl, hk]
        | false => simp [hk]
  | cons y w ih =>
    obtain ⟨n, rfl⟩ : ∃ m, n = m + 1 := ⟨n - 1, by simp at hn; omega⟩
    have hy := hw y (.head _)
    have ih' := ih (fun x hx => hw x (.tail _ hx)) (by simpa using hn)
      fun hg j hj => by simpa using hlazy hg (j + 1) (by simpa using hj)
    rw [List.cons_append, starLoop_chr_succ_cons, hy]
    cases greedy with
    | true => simp [ih']
    | false =>
      have h0 : k (y :: (w ++ rest)) g = none := hlazy rfl 0 (by simp)
      simp [ih', h0]

theorem starLoop_chr_eq_none (hw : ∀ x ∈ w, cls.test x = true) (hrest : ∀ x ∈ rest.head?, cls.test x = false)
    (hk : ∀ j ≤ w.length, k (w.drop j ++ rest) g = none) (n : Nat) :
    starLoop (chr cls).m greedy n (w ++ rest) g k = none := by
  induction w generalizing n with
  | nil =>
    have hk0 : k rest g = none := hk 0 le_rfl
    cases n with
    | zero => exact hk0
    | succ n =>
      cases rest with
      | nil => rw [List.nil_append, starLoop_chr_succ_nil]; exact hk0
      | cons x s =>
        rw [List.nil_append, starLoop_chr_succ_cons, hrest x rfl]
        cases greedy <;> simp [hk0]
  | cons y w ih =>
    have hk0 : k (y :: (w ++ rest)) g = none := hk 0 (Nat.zero_le _)
    cases n with
    | zero => exact hk0
    | succ n =>
      have ih' := ih (fun x hx => hw x (.tail _ hx))
        (fun j hj => by simpa using hk (j + 1) (by simpa using hj)) n
      rw [List.cons_append, starLoop_chr_succ_cons, hw y (.head _)]
      cases greedy <;> simp [hk0, ih']

/-- A greedy loop hands back the last character of its run when its
continuation fails after the whole run and succeeds before its last character. -/
theorem starLoop_chr_eq_of_some_last {c : Char} {t : Str} (hw : ∀ x ∈ w, cls.test x = true)
    (hc : cls.test c = true) (ht : ∀ x ∈ t.head?, cls.test x = false) {n : Nat} (hn : w.length < n)
    (hnone : k t g = none) (hk : k (c :: t) g = some r) : starLoop (chr cls).m true n (w ++ c :: t) g k = some r := by
  induction w generalizing n with
  | nil =>
    obtain ⟨n, rfl⟩ : ∃ m, n = m + 1 := ⟨n - 1, by simp at hn; omega⟩
    have h0 : starLoop (chr cls).m true n t g k = none := by
      simpa using starLoop_chr_eq_none (fun x h => absurd h (List.not_mem_nil x) : ∀ x ∈ ([] : Str), _) ht
        (fun _ _ => by simpa using hnone) n
    rw [List.nil_append, starLoop_chr_succ_cons, hc]
    simp [h0, hk]
  | cons y w ih =>
    obtain ⟨n, rfl⟩ : ∃ m, n = m + 1 := ⟨n - 1, by simp at hn; omega⟩
    rw [List.cons_append, starLoop_chr_succ_cons, hw y (.head _)]
    simp [ih (fun x hx => hw x (.tail _ hx)) (by simpa using hn)]

/-- A greedy loop hands back the part `v` of its run when its continuation
fails after every nonempty part of `v` and succeeds before it. -/
theorem starLoop_chr_eq_of_some_giveBack {v : Str} (hw : ∀ x ∈ w ++ v, cls.test x = true)
    (hrest : ∀ x ∈ rest.head?, cls.test x = false) {n : Nat} (hn : w.length ≤ n)
    (hnone : ∀ j, 0 < j → j ≤ v.length → k (v.drop j ++ rest) g = none) (hk : k (v ++ rest) g = some r) :
    starLoop (chr cls).m true n (w ++ (v ++ rest)) g k = some r := by
  induction w generalizing n with
  | nil =>
    cases n with
    | zero => exact hk
    | succ n =>
      cases v with
      | nil => exact starLoop_chr_eq_of_some (w := []) nofun (fun _ => hrest) (Nat.zero_le _) hk nofun
      | cons x v =>
        have h0 : starLoop (chr cls).m true n (v ++ rest) g k = none :=
          starLoop_chr_eq_none (fun y hy => hw y (by simp [hy])) hrest
            (fun j hj => by simpa using hnone (j + 1) (Nat.succ_pos j) (by simpa using hj)) n
        rw [List.nil_append, List.cons_append, starLoop_chr_succ_cons, hw x (by simp)]
        simpa [h0] using hk
  | cons y w ih =>
    obtain ⟨n, rfl⟩ : ∃ m, n = m + 1 := ⟨n - 1, by simp at hn; omega⟩
    rw [List.cons_append, starLoop_chr_succ_cons, hw y (.head _)]
    simp [ih (fun x hx => hw x (.tail _ hx)) (by simpa using hn)]

theorem m_many_chr_eq_of_some_giveBack {v : Str} (hw : ∀ x ∈ w ++ v, cls.test x = true)
    (hrest : ∀ x ∈ rest.head?, cls.test x = false)
    (hnone : ∀ j, 0 < j → j ≤ v.length → k (v.drop j ++ rest) g = none) (hk : k (v ++ rest) g = some r) :
    (many (chr cls)).m (w ++ (v ++ rest)) g k = some r := by
  rw [many, m_star]
  exact starLoop_chr_eq_of_some_giveBack hw hrest (by simp) hnone hk

theorem m_star_chr_eq_of_some (hw : ∀ x ∈ w, cls.test x = true)
    (hrest : greedy = true → ∀ x ∈ rest.head?, cls.test x = false) (hk : k rest g = some r)
    (hlazy : greedy = false → ∀ j < w.length, k (w.drop j ++ rest) g = none) :
    (star (chr cls) greedy).m (w ++ rest) g k = some r := by
  rw [m_star]
  exact starLoop_chr_eq_of_some hw hrest (by simp) hk hlazy

theorem m_plus_chr_eq_of_some (hw : w ≠ [] ∧ ∀ x ∈ w, cls.test x = true)
    (hrest : ∀ x ∈ rest.head?, cls.test x = false) (hk : k rest g = some r) :
    (plus (chr cls)).m (w ++ rest) g k = some r := by
  obtain ⟨y, w, rfl⟩ := List.exists_cons_of_ne_nil hw.1
  rw [plus, m_seq, List.cons_append, m_chr_cons, hw.2 y (.head _), if_pos rfl]
  exact m_star_chr_eq_of_some (fun x hx => hw.2 x (.tail _ hx)) (fun _ => hrest) hk fun h => by cases h

theorem m_plus_chr_eq_of_some_last {c : Char} {t : Str} (hw : w ≠ [] ∧ ∀ x ∈ w, cls.test x = true)
    (hc : cls.test c = true) (ht : ∀ x ∈ t.head?, cls.test x = false) (hnone : k t g = none)
    (hk : k (c :: t) g = some r) : (plus (chr cls)).m (w ++ c :: t) g k = some r := by
  obtain ⟨y, w, rfl⟩ := List.exists_cons_of_ne_nil hw.1
  rw [plus, m_seq, List.cons_append, m_chr_cons, hw.2 y (.head _), if_pos rfl, m_star]
  exact starLoop_chr_eq_of_some_last (fun x hx => hw.2 x (.tail _ hx)) hc ht (by simp) hnone hk

theorem m_star_chr_eq_none (hw : ∀ x ∈ w, cls.test x = true) (hrest : ∀ x ∈ rest.head?, cls.test x = false)
    (hk : ∀ j ≤ w.length, k (w.drop j ++ rest) g = none) : (star (chr cls) greedy).m (w ++ rest) g k = none := by
  rw [m_star]
  exact starLoop_chr_eq_none hw hrest hk _

theorem m_plus_chr_eq_none (hw : ∀ x ∈ w, cls.test x = true) (hrest : ∀ x ∈ rest.head?, cls.test x = false)
    (hk : ∀ j, 0 < j → j ≤ w.length → k (w.drop j ++ rest) g = none) :
    (plus (chr cls)).m (w ++ rest) g k = none := by
  cases w with
  | nil =>
    cases rest with
    | nil => rfl
    | cons x s => simp [plus, hrest x rfl]
  | cons y w =>
    rw [plus, m_seq, List.cons_append, m_chr_cons, hw y (.head _), if_pos rfl]
    exact m_star_chr_eq_none (fun x hx => hw x (.tail _ hx)) hrest
      fun j hj => by simpa using hk (j + 1) (Nat.succ_pos j) (by simpa using hj)

theorem starLoop_chr_eq_some {n : Nat} (h : starLoop (chr cls).m greedy n s g k = some r) :
    ∃ w rest, s = w ++ rest ∧ (∀ x ∈ w, cls.test x = true) ∧ k rest g = some r := by
  induction n generalizing s with
  | zero => exact ⟨[], s, rfl, by simp, h⟩
  | succ n ih =>
    cases s with
    | nil => exact ⟨[], [], rfl, by simp, by rwa [starLoop_chr_succ_nil] at h⟩
    | cons x s =>
      rw [starLoop_chr_succ_cons] at h
      have hloop : (if cls.test x then starLoop (chr cls).m greedy n s g k else none) = some r →
          ∃ w rest, x :: s = w ++ rest ∧ (∀ x ∈ w, cls.test x = true) ∧ k rest g = some r := by
        intro h'
        split at h'
        · obtain ⟨w, rest, rfl, hw, hk⟩ := ih h'
          exact ⟨x :: w, rest, rfl, by simp_all, hk⟩
        · cases h'
      cases greedy <;> simp only [Bool.false_eq_true, if_true, if_false, Option.orElse_eq_some'] at h
      · rcases h with h | ⟨-, h⟩
        · exact ⟨[], x :: s, rfl, by simp, h⟩
        · exact hloop h
      · rcases h with h | ⟨-, h⟩
        · exact hloop h
        · exact ⟨[], x :: s, rfl, by simp, h⟩

theorem m_star_chr_eq_some (h : (star (chr cls) greedy).m s g k = some r) :
    ∃ w rest, s = w ++ rest ∧ (∀ x ∈ w, cls.test x = true) ∧ k rest g = some r :=
  starLoop_chr_eq_some (by rwa [m_star] at h)

theorem m_plus_chr_eq_some (h : (plus (chr cls)).m s g k = some r) :
    ∃ w rest, s = w ++ rest ∧ (∀ x ∈ w, cls.test x = true) ∧ k rest g = some r := by
  rw [plus, m_seq] at h
  obtain ⟨x, s', rfl, hx, h⟩ := m_chr_eq_some h
  obtain ⟨w, rest, rfl, hw, hk⟩ := m_star_chr_eq_some h
  exact ⟨x :: w, rest, rfl, by simp_all, hk⟩

theorem m_plusLazy_chr_eq_of_some (hw : w ≠ [] ∧ ∀ x ∈ w, cls.test x = true) (hk : k rest g = some r)
    (hlazy : ∀ j, 0 < j → j < w.length → k (w.drop j ++ rest) g = none) :
    (plusLazy (chr cls)).m (w ++ rest) g k = some r := by
  obtain ⟨y, w, rfl⟩ := List.exists_cons_of_ne_nil hw.1
  rw [plusLazy, m_seq, List.cons_append, m_chr_cons, hw.2 y (.head _), if_pos rfl]
  exact m_star_chr_eq_of_some (fun x hx => hw.2 x (.tail _ hx)) nofun hk
    fun _ j hj => by simpa using hlazy (j + 1) (Nat.succ_pos j) (by simpa using hj)

theorem m_plusLazy_chr_eq_some (h : (plusLazy (chr cls)).m s g k = some r) :
    ∃ w rest, s = w ++ rest ∧ w ≠ [] ∧ (∀ x ∈ w, cls.test x = true) ∧ k rest g = some r := by
  rw [plusLazy, m_seq] at h
  obtain ⟨x, s', rfl, hx, h⟩ := m_chr_eq_some h
  obtain ⟨w, rest, rfl, hw, hk⟩ := m_star_chr_eq_some h
  exact ⟨x :: w, rest, rfl, List.cons_ne_nil _ _, by simp_all, hk⟩

end Regex

theorem CharClass.test_dot_of_ne {c : Char} (h : c ≠ '\n') : CharClass.dot.test c = true := by
  simpa [CharClass.dot, CharClass.test] using h

theorem CharClass.test_lit_of_ne {c x : Char} (h : x ≠ c) : (CharClass.lit c).test x = false := by
  simpa [CharClass.test] using h

end JniGenerator
