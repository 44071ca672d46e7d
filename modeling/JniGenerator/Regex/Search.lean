import JniGenerator.Regex.Match

/-!
# Searching and iterating

A match leaves a suffix of its input (`matchPrefix_suffix`), a search returns
the match at the leftmost position that has one (`searchAux_append`,
`searchAux_eq_some_of_matchPrefix`), and for a regex whose matches are never
empty (`Consuming`) the fuel of `findIter` is enough (`findIterAux_fuel`).

`findIter_groups_suffix`: when no match that starts in `pre` runs into `t`,
the matches `finditer` finds in `pre ++ t` end with those it finds in `t`.

`re.sub` copies a character where no match starts
(`subAux_cons_of_matchPrefix_eq_none`) and replaces a match where one does
(`subAux_of_matchPrefix`).
-/

namespace JniGenerator

namespace Regex

variable {r : Regex}

theorem starLoop_suffix {body : Str → Groups → Cont → Option (Str × Groups)}
    (hbody : ∀ s g k x, body s g k = some x → ∃ s' g', s' <:+ s ∧ k s' g' = some x) {greedy : Bool}
    {k : Cont} {x : Str × Groups} :
    ∀ {n s g}, starLoop body greedy n s g k = some x → ∃ s' g', s' <:+ s ∧ k s' g' = some x
  | 0, s, g, h => ⟨s, g, List.suffix_refl s, h⟩
  | n + 1, s, g, h => by
    have hagain : body s g (fun s' g' =>
        if s'.length < s.length then starLoop body greedy n s' g' k else none) = some x →
        ∃ s' g', s' <:+ s ∧ k s' g' = some x := fun h' => by
      obtain ⟨s1, g1, hs1, h1⟩ := hbody _ _ _ _ h'
      split at h1
      · obtain ⟨s2, g2, hs2, h2⟩ := starLoop_suffix hbody h1
        exact ⟨s2, g2, hs2.trans hs1, h2⟩
      · cases h1
    unfold starLoop at h
    cases greedy <;> simp only [Bool.false_eq_true, if_true, if_false, Option.orElse_eq_some'] at h
    · rcases h with h | ⟨-, h⟩
      · exact ⟨s, g, List.suffix_refl s, h⟩
      · exact hagain h
    · rcases h with h | ⟨-, h⟩
      · exact hagain h
      · exact ⟨s, g, List.suffix_refl s, h⟩

/-- A matcher hands its continuation a suffix of its input. -/
theorem m_suffix : ∀ (r : Regex) {s g k x}, r.m s g k = some x → ∃ s' g', s' <:+ s ∧ k s' g' = some x
  | .empty, s, g, _, _, h => ⟨s, g, List.suffix_refl s, h⟩
  | .chr _, s, _, _, _, h => by
    obtain ⟨_, s', rfl, -, h⟩ := m_chr_eq_some h
    exact ⟨s', _, List.suffix_cons _ _, h⟩
  | .seq a b, _, _, _, _, h => by
    obtain ⟨s1, g1, hs1, h1⟩ := m_suffix a h
    obtain ⟨s2, g2, hs2, h2⟩ := m_suffix b h1
    exact ⟨s2, g2, hs2.trans hs1, h2⟩
  | .alt a b, _, _, _, _, h => by
    rcases (Option.orElse_eq_some' _ _ _).mp h with h | ⟨-, h⟩
    · exact m_suffix a h
    · exact m_suffix b h
  | .star a _, _, _, _, _, h => starLoop_suffix (fun _ _ _ _ h => m_suffix a h) h
  | .group _ a, _, _, _, _, h => by
    obtain ⟨s', g', hs', h'⟩ := m_suffix a h
    exact ⟨s', _, hs', h'⟩
  | .eol, s, g, _, _, h => by
    simp only [Regex.m] at h
    split at h
    · exact ⟨s, g, List.suffix_refl s, h⟩
    · cases h

/-- A matcher fails when its continuation fails on every suffix of its input. -/
theorem m_eq_none_of_cont (r : Regex) {s : Str} {g : Groups} {k : Cont}
    (hk : ∀ s' g', s' <:+ s → k s' g' = none) : r.m s g k = none :=
  Option.eq_none_iff_forall_not_mem.2 fun _ hx => by
    obtain ⟨s', g', hs', h⟩ := m_suffix r hx
    rw [hk s' g' hs'] at h
    cases h

theorem matchPrefix_suffix {s rest : Str} {g : Groups} (h : r.matchPrefix s = some (rest, g)) : rest <:+ s := by
  obtain ⟨s', g', hs', h'⟩ := m_suffix r h
  cases h'
  exact hs'

/-- A regex whose every match consumes input. -/
def Consuming (r : Regex) : Prop :=
  ∀ s rest g, r.matchPrefix s = some (rest, g) → rest.length < s.length

theorem searchAux_eq_some_of_matchPrefix {b s rest : Str} {g : Groups}
    (h : r.matchPrefix s = some (rest, g)) :
    r.searchAux b s = some ⟨b.reverse, s.take (s.length - rest.length), rest, g⟩ := by
  cases s with
  | nil => simp [searchAux, h]
  | cons c s => simp [searchAux, h]

/-- A search passes over every position of `pre` where nothing matches. -/
theorem searchAux_append {t : Str} :
    ∀ {pre b : Str}, (∀ v, v ≠ [] → v <:+ pre → r.matchPrefix (v ++ t) = none) →
      r.searchAux b (pre ++ t) = r.searchAux (pre.reverse ++ b) t
  | [], _, _ => rfl
  | c :: pre, b, h => by
    have hc : r.matchPrefix (c :: (pre ++ t)) = none := h (c :: pre) (List.cons_ne_nil _ _) (List.suffix_refl _)
    rw [List.cons_append, searchAux, hc]
    simp only
    rw [searchAux_append fun v hv hvs => h v hv (hvs.trans (List.suffix_cons c pre))]
    simp

/-- The matches of a search do not depend on the text skipped before it. -/
theorem searchAux_map_eq {b b' : Str} :
    ∀ {s : Str}, (r.searchAux b s).map (fun mt => (mt.text, mt.after, mt.groups)) =
      (r.searchAux b' s).map (fun mt => (mt.text, mt.after, mt.groups))
  | [] => by
    simp only [searchAux, Option.map_map]
    cases r.matchPrefix [] <;> rfl
  | c :: s => by
    unfold searchAux
    split
    · simp
    · exact searchAux_map_eq

theorem searchAux_eq_some {b s : Str} {mt : Match} (h : r.searchAux b s = some mt) :
    ∃ v, v <:+ s ∧ r.matchPrefix v = some (mt.after, mt.groups) := by
  induction s generalizing b with
  | nil =>
    simp only [searchAux, Option.map_eq_some'] at h
    obtain ⟨⟨rest, g⟩, hm, rfl⟩ := h
    exact ⟨[], List.suffix_refl _, hm⟩
  | cons c s ih =>
    unfold searchAux at h
    split at h
    · cases h
      exact ⟨c :: s, List.suffix_refl _, ‹_›⟩
    · obtain ⟨v, hv, hm⟩ := ih h
      exact ⟨v, hv.trans (List.suffix_cons c s), hm⟩

theorem after_length_lt (hr : r.Consuming) {b s : Str} {mt : Match} (h : r.searchAux b s = some mt) :
    mt.after.length < s.length := by
  obtain ⟨v, hv, hm⟩ := searchAux_eq_some h
  exact (hr _ _ _ hm).trans_le hv.length_le

theorem text_ne_nil (hr : r.Consuming) {b s : Str} {mt : Match} (h : r.searchAux b s = some mt) :
    mt.text ≠ [] := by
  induction s generalizing b with
  | nil =>
    simp only [searchAux, Option.map_eq_some'] at h
    obtain ⟨⟨rest, g⟩, hm, rfl⟩ := h
    exact absurd (hr _ _ _ hm) (Nat.not_lt_zero _)
  | cons c s ih =>
    unfold searchAux at h
    split at h
    · cases h
      rename_i rest g hm
      have := hr _ _ _ hm
      simp only [ne_eq, List.take_eq_nil_iff, List.cons_ne_nil, or_false]
      omega
    · exact ih h

/-- Every fuel above the length of the text gives the same iteration. -/
theorem findIterAux_fuel (hr : r.Consuming) :
    ∀ {n m : Nat} {s : Str}, s.length < n → s.length < m → r.findIterAux n s = r.findIterAux m s
  | 0, _, _, hn, _ => absurd hn (Nat.not_lt_zero _)
  | _, 0, _, _, hm => absurd hm (Nat.not_lt_zero _)
  | n + 1, m + 1, s, hn, hm => by
    unfold findIterAux search
    split
    · rfl
    · rename_i mt hmt
      have hlt := after_length_lt hr hmt
      simp only [text_ne_nil hr hmt, if_false]
      rw [findIterAux_fuel hr (show mt.after.length < n by omega) (show mt.after.length < m by omega)]

theorem findIter_eq (hr : r.Consuming) {n : Nat} {s : Str} (hn : s.length < n) :
    r.findIterAux n s = r.findIter s :=
  findIterAux_fuel hr hn (Nat.lt_succ_self _)

/-- Every match of the iteration is a match of the regex at some position. -/
theorem groups_of_mem_findIterAux : ∀ {n : Nat} {s : Str} {mt : Match}, mt ∈ r.findIterAux n s →
    ∃ v, r.matchPrefix v = some (mt.after, mt.groups)
  | 0, _, _, h => absurd h (List.not_mem_nil _)
  | n + 1, s, mt, h => by
    unfold findIterAux at h
    split at h
    · exact absurd h (List.not_mem_nil _)
    · rename_i mt' hmt
      rcases List.mem_cons.mp h with rfl | h
      · obtain ⟨v, -, hv⟩ := searchAux_eq_some hmt
        exact ⟨v, hv⟩
      · exact groups_of_mem_findIterAux h

/-- A text the regex matches at its start begins the iteration with that match. -/
theorem findIter_eq_cons {s rest : Str} {g : Groups} (h : r.matchPrefix s = some (rest, g)) :
    ∃ mt l, r.findIter s = mt :: l ∧ mt.groups = g := by
  unfold findIter
  rw [findIterAux, search, searchAux_eq_some_of_matchPrefix h]
  exact ⟨_, _, rfl, rfl⟩

/-- The leftmost nonempty suffix of `pre` with a property, if any has it. -/
theorem exists_leftmost_suffix {P : Str → Prop} :
    ∀ {pre : Str}, (∃ v, v ≠ [] ∧ v <:+ pre ∧ P v) →
      ∃ u v, pre = u ++ v ∧ v ≠ [] ∧ P v ∧ ∀ u', u' ≠ [] → u' <:+ u → ¬ P (u' ++ v)
  | [], ⟨v, hv, hvs, _⟩ => absurd (List.eq_nil_of_suffix_nil hvs) hv
  | c :: pre, ⟨v, hv, hvs, hP⟩ => by
    by_cases hpre : P (c :: pre)
    · refine ⟨[], c :: pre, rfl, List.cons_ne_nil _ _, hpre, fun u' hu' hs => ?_⟩
      exact absurd (List.eq_nil_of_suffix_nil hs) hu'
    · have hvs' : v <:+ pre := by
        rcases List.suffix_cons_iff.mp hvs with h | h
        · exact absurd (h ▸ hP) hpre
        · exact h
      obtain ⟨u, w, rfl, hw, hPw, hleft⟩ := exists_leftmost_suffix ⟨v, hv, hvs', hP⟩
      refine ⟨c :: u, w, rfl, hw, hPw, fun u' hu' hs => ?_⟩
      rcases List.suffix_cons_iff.mp hs with h | h
      · rw [h]
        exact hpre
      · exact hleft u' hu' h

theorem suffix_append_of_length_le {v t rest : Str} (hs : rest <:+ v ++ t) (hl : t.length ≤ rest.length) :
    ∃ v', v' <:+ v ∧ rest = v' ++ t := by
  obtain ⟨a, ha⟩ := hs
  obtain ⟨a', rfl, hv⟩ | ⟨c', ha', rfl⟩ := List.append_eq_append_iff.mp ha
  · exact ⟨a', ⟨a, rfl⟩, hv.symm ▸ rfl⟩
  · have : c' = [] := by
      rw [List.length_append] at hl
      exact List.eq_nil_of_length_eq_zero (by omega)
    subst this
    exact ⟨[], List.nil_suffix, by simp⟩

theorem findIterAux_groups_suffix (hr : r.Consuming) {t : Str} :
    ∀ (k : Nat) {pre : Str}, pre.length ≤ k →
    (∀ v, v ≠ [] → v <:+ pre → ∀ rest g, r.matchPrefix (v ++ t) = some (rest, g) →
      t.length ≤ rest.length) →
    ∀ {n : Nat}, (pre ++ t).length < n →
      ((r.findIter t).map Match.groups) <:+ ((r.findIterAux n (pre ++ t)).map Match.groups) := by
  intro k
  induction k with
  | zero =>
    intro pre hk _ n hn
    obtain rfl : pre = [] := List.eq_nil_of_length_eq_zero (by omega)
    rw [List.nil_append] at hn ⊢
    rw [findIter_eq hr hn]
  | succ k ih =>
    intro pre hk hcross n hn
    by_cases hex : ∃ v, v ≠ [] ∧ v <:+ pre ∧ (r.matchPrefix (v ++ t)).isSome
    · obtain ⟨u, v, rfl, hv, hsome, hleft⟩ := exists_leftmost_suffix hex
      obtain ⟨⟨rest, g⟩, hm⟩ := Option.isSome_iff_exists.mp hsome
      have hskip : r.searchAux [] (u ++ (v ++ t)) = r.searchAux u.reverse (v ++ t) := by
        rw [searchAux_append fun u' hu' hs => ?_, List.append_nil]
        simpa [List.append_assoc] using hleft u' hu' hs
      obtain ⟨v', hv', rfl⟩ := suffix_append_of_length_le (matchPrefix_suffix hm)
        (hcross v hv (List.suffix_append u v) rest g hm)
      have hlt : v'.length < v.length := by
        have := hr _ _ _ hm
        simp only [List.length_append] at this
        omega
      obtain ⟨n, rfl⟩ : ∃ m, n = m + 1 := ⟨n - 1, by omega⟩
      have htext : ((v ++ t).take ((v ++ t).length - (v' ++ t).length)) ≠ [] := by
        simp only [ne_eq, List.take_eq_nil_iff, List.length_append, not_or, List.append_eq_nil]
        exact ⟨by omega, fun h => hv h.1⟩
      have hrest := ih (show v'.length ≤ k by simp only [List.length_append] at hk; omega)
        (fun w hw (hws : w <:+ v') => hcross w hw (hws.trans (hv'.trans (List.suffix_append u v))))
        (show (v' ++ t).length < n by simp only [List.length_append] at hn ⊢; omega)
      rw [List.append_assoc, findIterAux, search, hskip, searchAux_eq_some_of_matchPrefix hm]
      simp only [htext, if_false, List.map_cons]
      exact hrest.trans (List.suffix_cons _ _)
    · have hnone : ∀ v, v ≠ [] → v <:+ pre → r.matchPrefix (v ++ t) = none := fun v hv hvs => by
        simpa using fun h => hex ⟨v, hv, hvs, h⟩
      have hsame : (r.searchAux pre.reverse t).map (fun mt => (mt.text, mt.after, mt.groups)) =
          (r.searchAux [] t).map (fun mt => (mt.text, mt.after, mt.groups)) := searchAux_map_eq
      obtain ⟨n, rfl⟩ : ∃ m, n = m + 1 := ⟨n - 1, by omega⟩
      unfold findIter
      rw [findIterAux, findIterAux, search, search, searchAux_append hnone, List.append_nil]
      cases h1 : r.searchAux pre.reverse t with
      | none =>
        cases h2 : r.searchAux [] t with
        | none => exact List.suffix_refl _
        | some _ => simp [h1, h2] at hsame
      | some mt =>
        cases h2 : r.searchAux [] t with
        | none => simp [h1, h2] at hsame
        | some mt' =>
          simp only [h1, h2, Option.map_some', Option.some.injEq, Prod.mk.injEq] at hsame
          obtain ⟨htext, hafter, hgroups⟩ := hsame
          have hlt := after_length_lt hr h2
          have hne := text_ne_nil hr h2
          simp only [List.map_cons, htext, hafter, hgroups, hne, if_false]
          rw [findIterAux_fuel hr (show mt'.after.length < n by simp only [List.length_append] at hn; omega)
            (show mt'.after.length < t.length by omega)]

/-- With no match running from `pre` into `t`, the iteration over `pre ++ t`
ends with the iteration over `t`. -/
theorem findIter_groups_suffix (hr : r.Consuming) {pre t : Str}
    (hcross : ∀ v, v ≠ [] → v <:+ pre → ∀ rest g, r.matchPrefix (v ++ t) = some (rest, g) →
      t.length ≤ rest.length) :
    ((r.findIter t).map Match.groups) <:+ ((r.findIter (pre ++ t)).map Match.groups) :=
  findIterAux_groups_suffix hr pre.length le_rfl hcross (Nat.lt_succ_self _)

/-! ## Substitution -/

/-- The text a search skips is all it remembers of where it started. -/
theorem searchAux_before : ∀ (b s : Str), r.searchAux b s =
    (r.searchAux [] s).map fun mt => { mt with before := b.reverse ++ mt.before }
  | b, [] => by
    simp only [searchAux, Option.map_map]
    cases r.matchPrefix [] <;> simp [Function.comp_def]
  | b, c :: s => by
    unfold searchAux
    cases r.matchPrefix (c :: s) with
    | some x => simp
    | none =>
      simp only
      rw [searchAux_before (c :: b) s, searchAux_before [c] s, Option.map_map]
      congr 1
      funext mt
      simp

/-- `re.sub` copies a character where no match starts. -/
theorem subAux_cons_of_matchPrefix_eq_none {repl : Match → Str}
    (hrepl : ∀ mt b, repl { mt with before := b } = repl mt) {c : Char} {t : Str}
    (h : r.matchPrefix (c :: t) = none) : ∀ n, r.subAux repl n (c :: t) = c :: r.subAux repl n t
  | 0 => rfl
  | n + 1 => by
    have hs : r.search (c :: t) = (r.search t).map fun mt => { mt with before := c :: mt.before } := by
      simp only [search, searchAux, h]
      exact searchAux_before [c] t
    simp only [subAux, hs]
    cases r.search t with
    | none => rfl
    | some mt => simp [hrepl]

/-- `re.sub` replaces a match at the start and goes on after it. -/
theorem subAux_of_matchPrefix {repl : Match → Str} {s rest : Str} {g : Groups}
    (h : r.matchPrefix s = some (rest, g)) (hlt : rest.length < s.length) (n : Nat) :
    r.subAux repl (n + 1) s = repl ⟨[], s.take (s.length - rest.length), rest, g⟩ ++ r.subAux repl n rest := by
  have hne : s.take (s.length - rest.length) ≠ [] :=
    List.ne_nil_of_length_pos (by rw [List.length_take]; omega)
  simp [subAux, search, searchAux_eq_some_of_matchPrefix h, hne]

end Regex

end JniGenerator
