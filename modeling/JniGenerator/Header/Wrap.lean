import JniGenerator.Header.Content
import Mathlib.Data.List.Chain
import Mathlib.Data.List.DropRight

/-!
# The lines `WrapOutput` writes

`WrapOutput` splits the header into lines and, line by line, strips the
trailing whitespace of a short line or a directive and drops it when it is
blank after a blank one, or wraps a long line with `textwrap` (a parameter
here) and strips each wrapped line. It then writes the lines, each followed by
`\n`.

`WrappedLines` is what the loop keeps of the lines gathered so far: none ends
in whitespace or holds a line break, and no two blank ones follow each other.
Proved here, for every wrapper whose lines hold no line break and are not
blank once stripped (`GoodWrapper`, as `textwrap` gives for a line with text):

* `wrappedLines_wrapLine`: one turn of the loop keeps `WrappedLines`, and
  `wrappedLines_foldl` the whole loop;
* `splitlines_join_newline`: lines without a line break, each followed by
  `\n`, split back into themselves;
* `wrappedLines_wrapOutput`: so, whatever the header, the lines of the text
  `WrapOutput` returns have no trailing whitespace and no two consecutive
  ones are blank.
-/

namespace JniGenerator

theorem rstrip_rstrip (s : Str) : rstrip (rstrip s) = rstrip s := by
  simp only [rstrip, List.reverse_reverse, List.dropWhile_idempotent]

theorem mem_of_mem_rstrip {c : Char} {s : Str} (h : c ∈ rstrip s) : c ∈ s := by
  rw [rstrip, List.mem_reverse] at h
  exact List.mem_reverse.1 ((List.dropWhile_sublist _).subset h)

/-- The lines `WrapOutput` has gathered: stripped, without a line break, and
never two blank ones in a row. -/
structure WrappedLines (ret : List Str) : Prop where
  stripped : ∀ l ∈ ret, rstrip l = l
  unbroken : ∀ l ∈ ret, '\n' ∉ l ∧ '\r' ∉ l
  no_blank_run : ret.Chain' fun a b => ¬ (a = [] ∧ b = [])

/-- A wrapper whose lines hold no line break and are not blank once stripped. -/
def GoodWrapper (textWrap : Str → Str → List Str) : Prop :=
  ∀ indent line, ∀ w ∈ textWrap indent line, rstrip w ≠ [] ∧ '\n' ∉ w ∧ '\r' ∉ w

theorem chain'_of_ne_nil : ∀ {ls : List Str}, (∀ l ∈ ls, l ≠ []) →
    ls.Chain' fun a b => ¬ (a = [] ∧ b = [])
  | [], _ => List.chain'_nil
  | l :: _, h => List.chain'_cons'.2
      ⟨fun _ _ hb => h l (.head _) hb.1, chain'_of_ne_nil fun l' hl' => h l' (.tail _ hl')⟩

/-- Appending lines keeps `WrappedLines` when they are stripped and unbroken,
have no blank run, and do not start blank after a blank last line. -/
theorem WrappedLines.append {ret ext : List Str} (h : WrappedLines ret) (he : WrappedLines ext)
    (hj : ∀ x ∈ ret.getLast?, ∀ y ∈ ext.head?, ¬ (x = [] ∧ y = [])) : WrappedLines (ret ++ ext) where
  stripped l hl := (List.mem_append.1 hl).elim (h.stripped l) (he.stripped l)
  unbroken l hl := (List.mem_append.1 hl).elim (h.unbroken l) (he.unbroken l)
  no_blank_run := List.chain'_append.2 ⟨h.no_blank_run, he.no_blank_run, hj⟩

/-- One turn of the loop of `WrapOutput` keeps `WrappedLines`. -/
theorem wrappedLines_wrapLine {textWrap : Str → Str → List Str} (htw : GoodWrapper textWrap)
    {ret : List Str} (h : WrappedLines ret) {line : Str} (hline : '\n' ∉ line ∧ '\r' ∉ line) :
    WrappedLines (wrapLine textWrap ret line) := by
  unfold wrapLine
  split
  · -- a short line or a directive: stripped, and dropped when blank after a blank line
    dsimp only
    split
    · exact h
    · next hskip =>
      refine h.append ⟨?_, ?_, List.chain'_singleton _⟩ ?_
      · intro l hl
        rw [List.mem_singleton.1 hl, rstrip_rstrip]
      · intro l hl
        rw [List.mem_singleton.1 hl]
        exact ⟨fun hm => hline.1 (mem_of_mem_rstrip hm), fun hm => hline.2 (mem_of_mem_rstrip hm)⟩
      · rintro x hx y hy ⟨hx0, hy0⟩
        cases hy
        subst hx0
        exact hskip (by simp [Option.mem_def.1 hx, hy0])
  · -- a long line: each wrapped line stripped, none of them blank
    have hw : ∀ indent, ∀ l ∈ (textWrap indent line).map rstrip,
        l ≠ [] ∧ rstrip l = l ∧ '\n' ∉ l ∧ '\r' ∉ l := by
      intro indent l hl
      obtain ⟨w, hw, rfl⟩ := List.mem_map.1 hl
      obtain ⟨hne, hn, hr⟩ := htw _ line w hw
      exact ⟨hne, rstrip_rstrip w, fun hm => hn (mem_of_mem_rstrip hm),
        fun hm => hr (mem_of_mem_rstrip hm)⟩
    refine h.append ⟨fun l hl => (hw _ l hl).2.1, fun l hl => (hw _ l hl).2.2,
      chain'_of_ne_nil fun l hl => (hw _ l hl).1⟩ ?_
    rintro x - y hy ⟨-, rfl⟩
    exact (hw _ [] (List.mem_of_mem_head? hy)).1 rfl

theorem wrappedLines_foldl {textWrap : Str → Str → List Str} (htw : GoodWrapper textWrap) :
    ∀ (lines : List Str) {ret : List Str}, WrappedLines ret → (∀ l ∈ lines, '\n' ∉ l ∧ '\r' ∉ l) →
      WrappedLines (lines.foldl (wrapLine textWrap) ret)
  | [], _, h, _ => h
  | line :: lines, _, h, hl => wrappedLines_foldl htw lines
      (wrappedLines_wrapLine htw h (hl line (.head _))) fun l hm => hl l (.tail _ hm)

/-! ## Splitting the lines back -/

theorem mem_splitlinesAux : ∀ (acc s : Str), '\n' ∉ acc ∧ '\r' ∉ acc →
    ∀ l ∈ splitlinesAux acc s, '\n' ∉ l ∧ '\r' ∉ l := by
  intro acc s
  have hrev : ∀ acc : Str, '\n' ∉ acc ∧ '\r' ∉ acc → '\n' ∉ acc.reverse ∧ '\r' ∉ acc.reverse :=
    fun acc h => by simpa using h
  induction acc, s using splitlinesAux.induct with
  | case1 => intro _ l hl; cases hl
  | case2 acc hne =>
    intro hacc l hl
    rw [splitlinesAux, if_neg hne, List.mem_singleton] at hl
    exact hl ▸ hrev acc hacc
  | case3 acc s ih =>
    intro hacc l hl
    rw [splitlinesAux, List.mem_cons] at hl
    exact hl.elim (· ▸ hrev acc hacc) (ih (by simp) l)
  | case4 acc c s hne hc ih =>
    intro hacc l hl
    rw [splitlinesAux.eq_3 acc c s hne, if_pos hc, List.mem_cons] at hl
    exact hl.elim (· ▸ hrev acc hacc) (ih (by simp) l)
  | case5 acc c s hne hc ih =>
    intro hacc
    rw [splitlinesAux.eq_3 acc c s hne, if_neg hc]
    simp only [not_or] at hc
    exact ih ⟨by simp [Ne.symm hc.1, hacc.1], by simp [Ne.symm hc.2, hacc.2]⟩

theorem mem_splitlines {s l : Str} (h : l ∈ splitlines s) : '\n' ∉ l ∧ '\r' ∉ l :=
  mem_splitlinesAux [] s (by simp) l h

/-- A line without a line break, then `\n`, is one line for `splitlines`. -/
theorem splitlinesAux_line {l : Str} (hl : '\n' ∉ l ∧ '\r' ∉ l) (acc rest : Str) :
    splitlinesAux acc (l ++ '\n' :: rest) = (acc.reverse ++ l) :: splitlinesAux [] rest := by
  induction l generalizing acc with
  | nil =>
    rw [List.nil_append, List.append_nil, splitlinesAux.eq_3 acc '\n' rest (by simp), if_pos (.inl rfl)]
  | cons c l ih =>
    have hc : c ≠ '\n' ∧ c ≠ '\r' := ⟨fun h => hl.1 (h ▸ .head _), fun h => hl.2 (h ▸ .head _)⟩
    rw [List.cons_append, splitlinesAux.eq_3 acc c _ (fun _ h => absurd h hc.2), if_neg (not_or.2 hc),
      ih ⟨fun h => hl.1 (.tail _ h), fun h => hl.2 (.tail _ h)⟩]
    simp

/-- Lines without a line break, each followed by `\n`, split back into themselves. -/
theorem splitlines_join_newline : ∀ {ls : List Str}, (∀ l ∈ ls, '\n' ∉ l ∧ '\r' ∉ l) →
    splitlines (join "\n".toList (ls ++ [[]])) = ls
  | [], _ => rfl
  | [l], h => by
    rw [List.singleton_append, join_cons_cons, join_singleton, List.append_nil, splitlines,
      show "\n".toList = ['\n'] from rfl, splitlinesAux_line (h l (.head _))]
    rfl
  | l :: m :: ls, h => by
    have ih : splitlines (join "\n".toList ((m :: ls) ++ [[]])) = m :: ls :=
      splitlines_join_newline fun l' hl' => h l' (.tail _ hl')
    have hnl : ∀ r : Str, "\n".toList ++ r = '\n' :: r := fun _ => rfl
    rw [List.cons_append, List.cons_append, join_cons_cons, ← List.cons_append m, List.append_assoc,
      splitlines, hnl, splitlinesAux_line (h l (.head _)), ← splitlines, ih]
    rfl

/-- Whatever the header, the lines of the text `WrapOutput` returns have no
trailing whitespace and no two consecutive ones are blank. -/
theorem wrappedLines_wrapOutput {textWrap : Str → Str → List Str} (htw : GoodWrapper textWrap)
    (output : Str) : WrappedLines (splitlines (wrapOutput textWrap output)) := by
  have h := wrappedLines_foldl htw (splitlines output) (⟨fun _ => nofun, fun _ => nofun, List.chain'_nil⟩ : WrappedLines [])
    fun l hl => mem_splitlines hl
  rw [wrapOutput, splitlines_join_newline h.unbroken]
  exact h

/-- A wrapper that keeps a line with text whole, without its line breaks. -/
theorem wrappedLines_wrapOutput_unwrapped :
    let textWrap : Str → Str → List Str := fun _ line =>
      if rstrip (line.filter fun c => c != '\n' && c != '\r') = [] then []
      else [line.filter fun c => c != '\n' && c != '\r']
    GoodWrapper textWrap ∧ WrappedLines (splitlines (wrapOutput textWrap "int a;  \n\n\n  b();\t\n".toList)) := by
  intro textWrap
  have htw : GoodWrapper textWrap := by
    intro indent line w hw
    dsimp only [textWrap] at hw
    split at hw
    · cases hw
    · next hne =>
      rw [List.mem_singleton.1 hw]
      exact ⟨hne, by simp, by simp⟩
  exact ⟨htw, wrappedLines_wrapOutput htw _⟩

end JniGenerator
