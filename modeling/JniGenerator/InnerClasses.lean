import JniGenerator.Resolver
import JniGenerator.Regex.Search

/-!
# The inner classes `re_inner` finds

`ExtractImportsAndInnerClasses` takes the name after every `class` or
`interface` keyword of the newline-free contents, `re_inner` being
`(class|interface)\s+?(?P<name>\w+?)\W`.

Proved here:

* `reInner_matchPrefix`, `reInner_matchPrefix_eq_some`: what one match of
  `re_inner` is, both ways;
* `isIdent_of_mem_foundInnerNames`: every name found is an identifier;
* `mem_foundInnerNames`: a declaration `class N` or `interface N` is found
  when the text before it ends in a non-word character and not in a keyword
  followed by whitespace, so that no earlier match runs into it.
-/

namespace JniGenerator

open Regex

namespace JniParams

theorem word_of_mem_kw {kw : Str} (hkw : kw = "class".toList ∨ kw = "interface".toList) :
    ∀ x ∈ kw, isWord x = true := by
  rcases hkw with rfl | rfl <;> decide

/-! ## One match -/

theorem reInner_tail_eq {ws N post : Str} {c : Char} (hws : ws ≠ [] ∧ ∀ x ∈ ws, isSpace x = true)
    (hN : IsIdent N) (hc : isWord c = false) :
    (Regex.cat [.plusLazy (.chr .space), .group "name" (.plusLazy (.chr .word)), .chr (.neg .word)]).m
      (ws ++ N ++ c :: post) [] (fun s g => some (s, g)) = some (post, [("name", N)]) := by
  obtain ⟨y, ws, rfl⟩ := List.exists_cons_of_ne_nil hws.1
  obtain ⟨z, N, rfl⟩ := List.exists_cons_of_ne_nil hN.1
  have hy := hws.2 y (.head _)
  have hz := hN.2 z (.head _)
  simp only [m_cat_cons, Regex.cat, plusLazy, m_seq, List.cons_append, m_chr_cons, CharClass.test, hy, if_true,
    m_star, m_group]
  rw [List.append_assoc]
  refine starLoop_chr_eq_of_some (fun x hx => by simpa [CharClass.test] using hws.2 x (.tail _ hx))
    (fun h => by cases h) (by simp) ?_
    fun _ j hj => m_chr_drop_eq_none hj fun x hx => by
      simpa [CharClass.test] using isWord_eq_false_of_isSpace (hws.2 x (.tail _ hx))
  rw [List.cons_append, m_chr_cons, CharClass.test, hz, if_pos rfl]
  refine starLoop_chr_eq_of_some (fun x hx => by simpa [CharClass.test] using hN.2 x (.tail _ hx))
    (fun h => by cases h) (by simp) ?_
    fun _ j hj => m_chr_drop_eq_none hj fun x hx => by
      simpa [CharClass.test] using hN.2 x (.tail _ hx)
  simp [CharClass.test, hc, show N.length + (post.length + 1) - post.length = N.length + 1 by omega]

theorem reInner_matchPrefix {kw ws N post : Str} {c : Char}
    (hkw : kw = "class".toList ∨ kw = "interface".toList) (hws : ws ≠ [] ∧ ∀ x ∈ ws, isSpace x = true)
    (hN : IsIdent N) (hc : isWord c = false) :
    reInner.matchPrefix (kw ++ ws ++ N ++ c :: post) = some (post, [("name", N)]) := by
  unfold matchPrefix reInner
  rw [m_cat_cons, m_alt, List.append_assoc, List.append_assoc]
  rcases hkw with rfl | rfl
  · rw [m_lit_append, ← List.append_assoc, reInner_tail_eq hws hN hc]
    rfl
  · rw [m_lit_eq_none fun ⟨t, h⟩ => by simp at h, m_lit_append, ← List.append_assoc, reInner_tail_eq hws hN hc]
    rfl

theorem reInner_tail_eq_some {s rest : Str} {gs : Groups}
    (h : (Regex.cat [.plusLazy (.chr .space), .group "name" (.plusLazy (.chr .word)), .chr (.neg .word)]).m
      s [] (fun s g => some (s, g)) = some (rest, gs)) :
    ∃ ws w c, ws ≠ [] ∧ (∀ x ∈ ws, isSpace x = true) ∧ IsIdent w ∧ isWord c = false ∧
      s = ws ++ w ++ c :: rest ∧ gs = [("name", w)] := by
  simp only [m_cat_cons, Regex.cat, plusLazy, m_seq, m_star, m_group] at h
  obtain ⟨y, s, rfl, hy, h⟩ := m_chr_eq_some h
  obtain ⟨ws, s, rfl, hws, h⟩ := starLoop_chr_eq_some h
  obtain ⟨z, s, rfl, hz, h⟩ := m_chr_eq_some h
  obtain ⟨w, s, rfl, hw, h⟩ := starLoop_chr_eq_some h
  obtain ⟨c, s, rfl, hc, h⟩ := m_chr_eq_some h
  simp only [Option.some.injEq, Prod.mk.injEq] at h
  obtain ⟨rfl, rfl⟩ := h
  refine ⟨y :: ws, z :: w, c, List.cons_ne_nil _ _, ?_, ⟨List.cons_ne_nil _ _, ?_⟩, ?_, by simp, ?_⟩
  · exact List.forall_mem_cons.2 ⟨hy, hws⟩
  · exact List.forall_mem_cons.2 ⟨hz, hw⟩
  · simpa [CharClass.test] using hc
  · rw [← List.cons_append, take_length_sub_append]

theorem reInner_matchPrefix_eq_some {s rest : Str} {gs : Groups} (h : reInner.matchPrefix s = some (rest, gs)) :
    ∃ kw ws w c, (kw = "class".toList ∨ kw = "interface".toList) ∧ ws ≠ [] ∧ (∀ x ∈ ws, isSpace x = true) ∧
      IsIdent w ∧ isWord c = false ∧ s = kw ++ ws ++ w ++ c :: rest ∧ gs = [("name", w)] := by
  unfold matchPrefix reInner at h
  rw [m_cat_cons, m_alt] at h
  rcases (Option.orElse_eq_some' _ _ _).mp h with h | ⟨-, h⟩
  · obtain ⟨s, rfl, h⟩ := m_lit_eq_some h
    obtain ⟨ws, w, c, h1, h2, h3, h4, rfl, h5⟩ := reInner_tail_eq_some h
    exact ⟨_, ws, w, c, .inl rfl, h1, h2, h3, h4, by simp, h5⟩
  · obtain ⟨s, rfl, h⟩ := m_lit_eq_some h
    obtain ⟨ws, w, c, h1, h2, h3, h4, rfl, h5⟩ := reInner_tail_eq_some h
    exact ⟨_, ws, w, c, .inr rfl, h1, h2, h3, h4, by simp, h5⟩

theorem reInner_consuming : reInner.Consuming := fun s rest gs h => by
  obtain ⟨kw, ws, w, c, hkw, -, -, -, -, rfl, -⟩ := reInner_matchPrefix_eq_some h
  simp only [List.length_append, List.length_cons]
  omega

/-! ## No match runs into a declaration -/

/-- Where a non-word character followed by a word character can sit in a match
of `re_inner`: at the end of its whitespace. -/
theorem pair_suffix_of_reInner {kw ws w d : Str} {c x y : Char} (hkw : ∀ z ∈ kw, isWord z = true)
    (hws : ∀ z ∈ ws, isSpace z = true) (hw : ∀ z ∈ w, isWord z = true)
    (hx : isWord x = false) (hy : isWord y = true) (h : x :: y :: d <:+ kw ++ ws ++ w ++ [c]) :
    ∃ ws0, ws = ws0 ++ [x] ∧ y :: d = w ++ [c] := by
  rw [List.append_assoc, List.append_assoc] at h
  rcases suffix_append_cases h with h | ⟨a, ha, has, heq⟩
  · rcases suffix_append_cases h with h | ⟨a, ha, has, heq⟩
    · rcases suffix_append_cases h with h | ⟨a, ha, has, heq⟩
      · have := h.length_le
        simp at this
      · obtain ⟨z, a, rfl⟩ := List.exists_cons_of_ne_nil ha
        simp only [List.cons_append, List.cons.injEq] at heq
        obtain ⟨rfl, -⟩ := heq
        simp [hw x (head_mem_of_suffix has)] at hx
    · obtain ⟨z, a, rfl⟩ := List.exists_cons_of_ne_nil ha
      simp only [List.cons_append, List.cons.injEq] at heq
      obtain ⟨rfl, heq⟩ := heq
      cases a with
      | nil =>
        obtain ⟨ws0, rfl⟩ := has
        exact ⟨ws0, rfl, heq⟩
      | cons z' a =>
        simp only [List.cons_append, List.cons.injEq] at heq
        obtain ⟨rfl, -⟩ := heq
        have := hws y (has.subset (.tail _ (.head _)))
        simp [isSpace_eq_false_of_isWord hy] at this
  · obtain ⟨z, a, rfl⟩ := List.exists_cons_of_ne_nil ha
    simp only [List.cons_append, List.cons.injEq] at heq
    obtain ⟨rfl, -⟩ := heq
    simp [hkw x (head_mem_of_suffix has)] at hx

/-- No match of `re_inner` that starts in `pre` runs into a text starting with
a word character, when `pre` ends in a non-word character and does not end,
before its trailing whitespace, in a keyword of the pattern. -/
theorem reInner_not_across {pre t : Str} (hlast : ∀ x ∈ pre.getLast?, isWord x = false)
    (hclass : ¬ "class".toList <:+ rstrip pre) (hinterface : ¬ "interface".toList <:+ rstrip pre)
    (ht : ∀ x ∈ t.head?, isWord x = true) (v : Str) (hv : v ≠ []) (hvs : v <:+ pre) (rest : Str)
    (gs : Groups) (hm : reInner.matchPrefix (v ++ t) = some (rest, gs)) : t.length ≤ rest.length := by
  obtain ⟨kw, ws, w, c, hkw, -, hwsp, hww, -, hs, -⟩ := reInner_matchPrefix_eq_some hm
  by_contra hlt
  rw [Nat.not_le] at hlt
  have hA : v ++ t = (kw ++ ws ++ w ++ [c]) ++ rest := by rw [hs]; simp
  rcases List.append_eq_append_iff.mp hA with ⟨d, hd, ht'⟩ | ⟨a', -, ht'⟩
  · have hd0 : d ≠ [] := by
      rintro rfl
      rw [List.nil_append] at ht'
      rw [ht'] at hlt
      exact lt_irrefl _ hlt
    obtain ⟨y, d, rfl⟩ := List.exists_cons_of_ne_nil hd0
    obtain ⟨v0, x, rfl⟩ := (List.eq_nil_or_concat v).resolve_left hv
    rw [List.concat_eq_append] at hd hvs hv
    have hx : isWord x = false := hlast x (by rw [← getLast?_of_suffix hvs hv]; simp)
    have hy : isWord y = true := ht y (by rw [ht']; simp)
    obtain ⟨ws0, rfl, hyd⟩ := pair_suffix_of_reInner (word_of_mem_kw hkw) hwsp hww.2 hx hy
      (show x :: y :: d <:+ kw ++ ws ++ w ++ [c] from ⟨v0, by rw [hd]; simp⟩)
    have hv0 : v0 = kw ++ ws0 := by
      have : v0 ++ (x :: y :: d) = (kw ++ ws0) ++ (x :: y :: d) := by
        rw [hyd]
        simpa [hyd] using hd.symm
      exact List.append_cancel_right this
    obtain ⟨u, rfl⟩ := hvs
    have hr : rstrip (u ++ (v0 ++ [x])) = u ++ kw := by
      rw [hv0, show u ++ (kw ++ ws0 ++ [x]) = (u ++ kw) ++ (ws0 ++ [x]) by simp]
      refine rstrip_append_spaces (fun z hz => hwsp z (by simpa using hz)) fun z hz => ?_
      have hkw0 : kw ≠ [] := by rcases hkw with rfl | rfl <;> simp
      have hz' : z ∈ kw :=
        List.mem_of_mem_getLast? (by rwa [getLast?_of_suffix (List.suffix_append u kw) hkw0])
      exact isSpace_eq_false_of_isWord (word_of_mem_kw hkw z hz')
    rcases hkw with rfl | rfl
    · exact hclass (hr ▸ List.suffix_append u _)
    · exact hinterface (hr ▸ List.suffix_append u _)
  · have := congrArg List.length ht'
    simp only [List.length_append] at this
    omega

/-! ## The names found -/

theorem foundInnerNames_eq (contents : Str) :
    foundInnerNames contents =
      ((reInner.findIter contents).map Match.groups).map fun g => (g.lookup "name").getD [] := by
  rw [foundInnerNames, List.map_map]
  rfl

theorem isIdent_of_mem_foundInnerNames {contents N : Str} (h : N ∈ foundInnerNames contents) : IsIdent N := by
  obtain ⟨mt, hmt, rfl⟩ := List.mem_map.mp h
  obtain ⟨v, hv⟩ := groups_of_mem_findIterAux hmt
  obtain ⟨_, _, w, _, -, -, -, hw, -, -, hgs⟩ := reInner_matchPrefix_eq_some hv
  simpa [Match.group, hgs] using hw

theorem mem_foundInnerNames {pre kw ws N post : Str} {c : Char}
    (hkw : kw = "class".toList ∨ kw = "interface".toList) (hws : ws ≠ [] ∧ ∀ x ∈ ws, isSpace x = true)
    (hN : IsIdent N) (hc : isWord c = false) (hlast : ∀ x ∈ pre.getLast?, isWord x = false)
    (hclass : ¬ "class".toList <:+ rstrip pre) (hinterface : ¬ "interface".toList <:+ rstrip pre) :
    N ∈ foundInnerNames (pre ++ (kw ++ ws ++ N ++ c :: post)) := by
  obtain ⟨mt, l, hfind, hgroups⟩ := findIter_eq_cons
    (show reInner.matchPrefix (kw ++ ws ++ N ++ c :: post) = some (post, [("name", N)]) from
      reInner_matchPrefix hkw hws hN hc)
  have hhead : ∀ x ∈ (kw ++ ws ++ N ++ c :: post).head?, isWord x = true := by
    rcases hkw with rfl | rfl <;> simp [isWord]
  have hsuffix := findIter_groups_suffix reInner_consuming (reInner_not_across hlast hclass hinterface hhead)
  rw [hfind, List.map_cons, hgroups] at hsuffix
  rw [foundInnerNames_eq]
  exact List.mem_map.mpr ⟨_, hsuffix.subset (.head _), by simp⟩

end JniParams

end JniGenerator
