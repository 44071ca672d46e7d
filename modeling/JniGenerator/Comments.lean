import JniGenerator.Source
import JniGenerator.Regex.Search

/-! `_RemoveComments` against a scanner of the Java lexical grammar.

`javaLex` reads Java text as a scanner that only tells comments from the rest
does (JLS §3.7 comments, §3.10.4 and §3.10.5 character and string literals
with their escapes, §3.4 line terminators `\n`, `\r` and `\r\n`): it keeps
every character outside a comment and the line terminator that ends a line
comment, and rejects a text that ends inside a block comment or a literal.

* `javaLex_sublist`: the scanner only deletes.
* `removeComments_eq_javaLex`: on every text that the scanner accepts and
  whose line comments all end at `\n` or at the end of the text
  (`lineCommentsEndAtLf`), `_RemoveComments` returns what the scanner keeps. The proof follows
  `re.sub` position by position: at a comment or a literal the regex matches
  exactly the token (`matchPrefix_lineComment`, `matchPrefix_blockComment`,
  `matchPrefix_literal`), anywhere else it matches nothing
  (`matchPrefix_plain`).
* `removeComments_line_comment_eats_cr`: `$` only stops before `\n`, so a
  line comment ended by `\r\n` loses the `\r` and one ended by a lone `\r`
  runs on to the next `\n`.
* `removeComments_removeComments`: on the same texts, removing comments twice
  is removing them once, since the scanner keeps its own output
  (`javaLex_resume`). -/

namespace JniGenerator

/-! ## A scanner of Java comments -/

/-- The states of the scanner: code, a line comment, a block comment, the body
of a character (`q = '\''`) or string (`q = '"'`) literal, and the character
after a backslash in one. -/
inductive LexState where
  | code
  | lineComment
  | blockComment
  | literal (q : Char)
  | escape (q : Char)
  deriving DecidableEq, Repr

/-- The text the scanner keeps from a text read in state `st`: everything but
the comments, or `none` when the text ends inside a block comment or a
literal. -/
def javaLex : LexState → Str → Option Str
  | .code, '/' :: '/' :: s => javaLex .lineComment s
  | .code, '/' :: '*' :: s => javaLex .blockComment s
  | .code, c :: s => (javaLex (if c = '"' ∨ c = '\'' then .literal c else .code) s).map (c :: ·)
  | .lineComment, c :: s =>
    if c = '\n' ∨ c = '\r' then (javaLex .code s).map (c :: ·) else javaLex .lineComment s
  | .blockComment, '*' :: '/' :: s => javaLex .code s
  | .blockComment, _ :: s => javaLex .blockComment s
  | .literal q, c :: s =>
    (javaLex (if c = '\\' then .escape q else if c = q then .code else .literal q) s).map (c :: ·)
  | .escape q, c :: s => (javaLex (.literal q) s).map (c :: ·)
  | .code, [] => some []
  | .lineComment, [] => some []
  | _, [] => none

/-- Whether every line comment of a text read in state `st` ends at `\n` or at
the end of the text, never at a `\r`. -/
def lineCommentsEndAtLf : LexState → Str → Bool
  | .code, '/' :: '/' :: s => lineCommentsEndAtLf .lineComment s
  | .code, '/' :: '*' :: s => lineCommentsEndAtLf .blockComment s
  | .code, c :: s => lineCommentsEndAtLf (if c = '"' ∨ c = '\'' then .literal c else .code) s
  | .lineComment, c :: s =>
    if c = '\r' then false else if c = '\n' then lineCommentsEndAtLf .code s else lineCommentsEndAtLf .lineComment s
  | .blockComment, '*' :: '/' :: s => lineCommentsEndAtLf .code s
  | .blockComment, _ :: s => lineCommentsEndAtLf .blockComment s
  | .literal q, c :: s =>
    lineCommentsEndAtLf (if c = '\\' then .escape q else if c = q then .code else .literal q) s
  | .escape q, _ :: s => lineCommentsEndAtLf (.literal q) s
  | _, [] => true

/-- The text after the `*/` that closes a block comment. -/
def afterBlockComment : Str → Option Str
  | '*' :: '/' :: s => some s
  | _ :: s => afterBlockComment s
  | [] => none

/-- The text after the quote `q` that closes a literal body, passing over
escapes. -/
def afterLiteral (q : Char) : Str → Option Str
  | '\\' :: _ :: s => afterLiteral q s
  | c :: s => if c = q then some s else afterLiteral q s
  | [] => none

theorem sublist_cons_of_map_eq_some {c : Char} {s out : Str} {o : Option Str}
    (ih : ∀ {out}, o = some out → out.Sublist s) (h : o.map (c :: ·) = some out) :
    out.Sublist (c :: s) := by
  obtain ⟨o, ho, rfl⟩ := Option.map_eq_some'.1 h
  exact (ih ho).cons₂ c

/-- The scanner only deletes: what it keeps is a subsequence of its input. -/
theorem javaLex_sublist : ∀ {st : LexState} {s out : Str}, javaLex st s = some out → out.Sublist s := by
  intro st s
  induction st, s using javaLex.induct with
  | case1 s ih => exact fun h => ((ih ((javaLex.eq_1 s).symm.trans h)).cons _).cons _
  | case2 s ih => exact fun h => ((ih ((javaLex.eq_2 s).symm.trans h)).cons _).cons _
  | case3 c s h1 h2 ih =>
    exact fun h => sublist_cons_of_map_eq_some ih ((javaLex.eq_3 c s h1 h2).symm.trans h)
  | case4 c s hc ih =>
    intro out h
    rw [javaLex.eq_4, if_pos hc] at h
    exact sublist_cons_of_map_eq_some ih h
  | case5 c s hc ih =>
    intro out h
    rw [javaLex.eq_4, if_neg hc] at h
    exact (ih h).cons _
  | case6 s ih => exact fun h => ((ih ((javaLex.eq_5 s).symm.trans h)).cons _).cons _
  | case7 c s hc ih => exact fun h => (ih ((javaLex.eq_6 c s hc).symm.trans h)).cons _
  | case8 q c s ih => exact fun h => sublist_cons_of_map_eq_some ih ((javaLex.eq_7 q c s).symm.trans h)
  | case9 q c s ih => exact fun h => sublist_cons_of_map_eq_some ih ((javaLex.eq_8 q c s).symm.trans h)
  | case10 | case11 => intro out h; cases h; exact .slnil
  | case12 st h1 h2 =>
    intro out h
    cases st with
    | code => exact (h1 rfl).elim
    | lineComment => exact (h2 rfl).elim
    | _ => cases h

/-- A text without `\r` has no line comment ended by one. -/
theorem lineCommentsEndAtLf_of_not_mem {st : LexState} {s : Str} (hr : '\r' ∉ s) :
    lineCommentsEndAtLf st s = true := by
  induction st, s using lineCommentsEndAtLf.induct with
  | case4 s => exact absurd (.head _) hr
  | _ => simp_all [lineCommentsEndAtLf]

/-- A line comment that ends at `\n` runs to it; the scanner goes on in code
there. -/
theorem javaLex_lineComment : ∀ {t : Str}, lineCommentsEndAtLf .lineComment t = true →
    javaLex .lineComment t = javaLex .code (t.dropWhile (· ≠ '\n')) ∧
      lineCommentsEndAtLf .code (t.dropWhile (· ≠ '\n')) = true
  | [], _ => ⟨rfl, rfl⟩
  | c :: t, h => by
    rw [lineCommentsEndAtLf] at h
    by_cases hr : c = '\r'
    · rw [if_pos hr] at h
      cases h
    rw [if_neg hr] at h
    by_cases hn : c = '\n'
    · subst hn
      rw [if_pos rfl] at h
      simp [javaLex, lineCommentsEndAtLf, h]
    · rw [if_neg hn] at h
      rw [javaLex, if_neg (not_or.2 ⟨hn, hr⟩), List.dropWhile_cons_of_pos (by simpa using hn)]
      exact javaLex_lineComment h

theorem javaLex_blockComment (t : Str) :
    javaLex .blockComment t = (afterBlockComment t).bind (javaLex .code) := by
  induction t using afterBlockComment.induct with
  | case1 s => rfl
  | case2 c s hne ih => rw [javaLex.eq_6 c s hne, afterBlockComment.eq_2 c s hne, ih]
  | case3 => rfl

/-- A literal body runs to its closing quote; with none the scanner rejects the text. -/
theorem javaLex_literal {q : Char} (hq : q ≠ '\\') (t : Str) :
    (∀ r, afterLiteral q t = some r → ∃ w, t = w ++ r ∧
      javaLex (.literal q) t = (javaLex .code r).map (w ++ ·)) ∧
    (afterLiteral q t = none → javaLex (.literal q) t = none) := by
  induction t using afterLiteral.induct q with
  | case1 d s ih =>
    have hl : javaLex (.literal q) ('\\' :: d :: s) = ((javaLex (.literal q) s).map (d :: ·)).map ('\\' :: ·) := by
      simp [javaLex]
    rw [afterLiteral.eq_1, hl]
    refine ⟨fun r hr => ?_, fun hr => by rw [ih.2 hr]; rfl⟩
    obtain ⟨w, rfl, hw⟩ := ih.1 r hr
    exact ⟨'\\' :: d :: w, rfl, by rw [hw, Option.map_map, Option.map_map]; rfl⟩
  | case2 s hne =>
    have hl : javaLex (.literal q) (q :: s) = (javaLex .code s).map (q :: ·) := by
      simp [javaLex, hq]
    rw [afterLiteral.eq_2 q q s hne, if_pos rfl]
    exact ⟨fun r hr => (by cases hr; exact ⟨[q], rfl, hl⟩), fun hr => (nomatch hr)⟩
  | case3 c s hne hcq ih =>
    rw [afterLiteral.eq_2 q c s hne, if_neg hcq]
    by_cases hc : c = '\\'
    · -- a backslash at the very end: the scanner stops inside an escape
      subst hc
      obtain rfl : s = [] := by
        cases s with
        | nil => rfl
        | cons d s => exact (hne d s rfl rfl).elim
      exact ⟨fun _ hr => (nomatch hr), fun _ => rfl⟩
    · have hl : javaLex (.literal q) (c :: s) = (javaLex (.literal q) s).map (c :: ·) := by
        simp [javaLex, hc, hcq]
      rw [hl]
      refine ⟨fun r hr => ?_, fun hr => by rw [ih.2 hr]; rfl⟩
      obtain ⟨w, rfl, hw⟩ := ih.1 r hr
      exact ⟨c :: w, rfl, by rw [hw, Option.map_map]; rfl⟩
  | case4 => exact ⟨fun _ hr => (nomatch hr), fun _ => rfl⟩

theorem lineCommentsEndAtLf_blockComment {t u : Str} (h : afterBlockComment t = some u) :
    lineCommentsEndAtLf .blockComment t = lineCommentsEndAtLf .code u := by
  induction t using afterBlockComment.induct with
  | case1 s =>
    cases h
    rfl
  | case2 c s hne ih =>
    rw [afterBlockComment.eq_2 c s hne] at h
    rw [lineCommentsEndAtLf.eq_6 c s hne, ih h]
  | case3 => cases h

theorem lineCommentsEndAtLf_literal {q : Char} (hq : q ≠ '\\') {t r : Str} (h : afterLiteral q t = some r) :
    lineCommentsEndAtLf (.literal q) t = lineCommentsEndAtLf .code r := by
  induction t using afterLiteral.induct q with
  | case1 d s ih =>
    rw [afterLiteral.eq_1] at h
    simp [lineCommentsEndAtLf, ih h]
  | case2 s hne =>
    rw [afterLiteral.eq_2 q q s hne, if_pos rfl] at h
    cases h
    simp [lineCommentsEndAtLf, hq]
  | case3 c s hne hcq ih =>
    rw [afterLiteral.eq_2 q c s hne, if_neg hcq] at h
    have hc : c ≠ '\\' := by
      rintro rfl
      cases s with
      | nil => cases h
      | cons d s => exact hne d s rfl rfl
    simp [lineCommentsEndAtLf, hc, hcq, ih h]
  | case4 => cases h

/-! ## The matches of `_comment_remover_regex` -/

namespace Regex

variable {g : Groups} {k : Cont} {x : Str × Groups}

/-- The lazy `.*?` of `/\*.*?\*/` stops at the first `*/`. -/
theorem starLoop_any_afterBlockComment {u : Str} (hk : k u g = some x) :
    ∀ {t : Str} {n : Nat}, afterBlockComment t = some u → t.length ≤ n →
      starLoop (chr .any).m false n t g (fun s' g' => (lit "*/".toList).m s' g' k) = some x := by
  intro t
  induction t using afterBlockComment.induct with
  | case1 s =>
    intro n h hn
    obtain ⟨n, rfl⟩ : ∃ m, n = m + 1 := ⟨n - 1, by simp at hn; omega⟩
    simp only [afterBlockComment, Option.some.injEq] at h
    subst h
    rw [starLoop]
    simp only [Bool.false_eq_true, if_false]
    rw [show '*' :: '/' :: s = "*/".toList ++ s from rfl, m_lit_append, hk]
    rfl
  | case2 c s hne ih =>
    intro n h hn
    obtain ⟨n, rfl⟩ : ∃ m, n = m + 1 := ⟨n - 1, by simp at hn; omega⟩
    rw [afterBlockComment.eq_2 c s hne] at h
    rw [starLoop]
    simp only [Bool.false_eq_true, if_false]
    rw [m_lit_eq_none fun ⟨v, hv⟩ => hne v (by simp at hv; exact hv.1.symm) (by simp at hv; exact hv.2.symm)]
    simp only [Option.none_orElse', m_chr_cons, CharClass.test, if_true, List.length_cons,
      Nat.lt_succ_self]
    exact ih h (by simpa using hn)
  | case3 => intro n h; cases h

/-- The greedy `(?:\\.|[^\\q])*` of a quoted literal runs to the closing quote. -/
theorem starLoop_literal_afterLiteral {q : Char} (hq : q ≠ '\\') {r : Str} (hk : k r g = some x) :
    ∀ {t : Str} {n : Nat}, afterLiteral q t = some r → t.length ≤ n →
      starLoop (alt (seq (chr (.lit '\\')) (chr .any)) (chr (.neg (.union (.lit '\\') (.lit q))))).m
        true n t g (fun s' g' => (chr (.lit q)).m s' g' k) = some x := by
  intro t
  induction t using afterLiteral.induct q with
  | case1 d s ih =>
    intro n h hn
    obtain ⟨n, rfl⟩ : ∃ m, n = m + 1 := ⟨n - 1, by simp at hn; omega⟩
    rw [afterLiteral.eq_1] at h
    rw [starLoop]
    simp only [if_true, m_alt, m_seq, m_chr_cons, CharClass.test, beq_self_eq_true, List.length_cons]
    rw [if_pos (by omega), ih h (by simp at hn; omega)]
    rfl
  | case2 s hne =>
    intro n h hn
    obtain ⟨n, rfl⟩ : ∃ m, n = m + 1 := ⟨n - 1, by simp at hn; omega⟩
    rw [afterLiteral.eq_2 q q s hne, if_pos rfl, Option.some.injEq] at h
    subst h
    rw [starLoop]
    simp [CharClass.test, hq, hk]
  | case3 c s hne hcq ih =>
    intro n h hn
    obtain ⟨n, rfl⟩ : ∃ m, n = m + 1 := ⟨n - 1, by simp at hn; omega⟩
    rw [afterLiteral.eq_2 q c s hne, if_neg hcq] at h
    have hc : c ≠ '\\' := by
      rintro rfl
      cases s with
      | nil => cases h
      | cons d s => exact hne d s rfl rfl
    rw [starLoop]
    simp only [if_true, m_alt, m_seq, m_chr_cons, CharClass.test, List.length_cons]
    simp [hc, hcq]
    exact ih h (by simp at hn; omega)
  | case4 => intro n h; cases h

end Regex

theorem matchPrefix_lineComment (t : Str) :
    reCommentRemover.matchPrefix ('/' :: '/' :: t) = some (t.dropWhile (· ≠ '\n'), []) := by
  have hk : (t.dropWhile (· ≠ '\n')).head? = none ∨ (t.dropWhile (· ≠ '\n')).head? = some '\n' := by
    have h := List.head?_dropWhile_not (fun c => decide (c ≠ '\n')) t
    rcases hd : (t.dropWhile (· ≠ '\n')).head? with _ | c
    · exact .inl rfl
    · rw [hd] at h
      exact .inr (congrArg some (not_not.1 (of_decide_eq_false h)))
  have hlazy : ∀ j < (t.takeWhile (· ≠ '\n')).length,
      Regex.eol.m ((t.takeWhile (· ≠ '\n')).drop j ++ t.dropWhile (· ≠ '\n')) []
        (fun s g => some (s, g)) = none := by
    intro j hj
    have hx : decide ((t.takeWhile (· ≠ '\n'))[j] ≠ '\n') = true :=
      List.mem_takeWhile_imp (p := fun c => decide (c ≠ '\n')) (List.getElem_mem hj)
    rw [List.drop_eq_getElem_cons hj, List.cons_append]
    exact Regex.m_eol_cons (of_decide_eq_true hx)
  unfold Regex.matchPrefix reCommentRemover
  rw [Regex.m_alt, Regex.m_cat_cons, show '/' :: '/' :: t = "//".toList ++ t from rfl,
    Regex.m_lit_append, Regex.m_cat_cons]
  conv => lhs; rw [← List.takeWhile_append_dropWhile (· ≠ '\n') t]
  rw [Regex.manyLazy, Regex.m_star_chr_eq_of_some (fun x _ => (rfl : CharClass.any.test x = true))
    (fun h : false = true => nomatch h) (Regex.m_eol_of_head hk) fun _ => hlazy]
  rfl

theorem matchPrefix_blockComment {t u : Str} (h : afterBlockComment t = some u) :
    reCommentRemover.matchPrefix ('/' :: '*' :: t) = some (u, []) := by
  unfold Regex.matchPrefix reCommentRemover
  rw [Regex.m_alt, Regex.m_cat_cons, Regex.m_lit_eq_none (by simp), Option.none_orElse', Regex.m_alt,
    Regex.m_cat_cons, show '/' :: '*' :: t = "/*".toList ++ t from rfl, Regex.m_lit_append,
    Regex.m_cat_cons, Regex.manyLazy, Regex.m_star,
    show Regex.cat [Regex.lit "*/".toList] = Regex.lit "*/".toList from rfl,
    Regex.starLoop_any_afterBlockComment rfl h le_rfl]
  rfl

theorem m_quotedLiteral {q : Char} (hq : q ≠ '\\') {t r : Str} (h : afterLiteral q t = some r)
    {g : Groups} {k : Cont} {x : Str × Groups} (hk : k r g = some x) :
    (quotedLiteral q).m (q :: t) g k = some x := by
  unfold quotedLiteral
  rw [Regex.m_cat_cons, Regex.m_chr_cons, if_pos (by simp [CharClass.test]), Regex.m_cat_cons,
    Regex.many, Regex.m_star, show Regex.cat [Regex.chr (.lit q)] = Regex.chr (.lit q) from rfl]
  exact Regex.starLoop_literal_afterLiteral hq hk h le_rfl

theorem m_quotedLiteral_ne {q c : Char} (hc : c ≠ q) (t : Str) {g : Groups} {k : Cont} :
    (quotedLiteral q).m (c :: t) g k = none := by
  unfold quotedLiteral
  rw [Regex.m_cat_cons, Regex.m_chr_cons, if_neg (by simpa [CharClass.test] using hc)]

theorem matchPrefix_literal {q : Char} (hq : q = '"' ∨ q = '\'') {t r : Str} (h : afterLiteral q t = some r) :
    reCommentRemover.matchPrefix (q :: t) = some (r, []) := by
  have hs : q ≠ '/' := by rcases hq with rfl | rfl <;> decide
  unfold Regex.matchPrefix reCommentRemover
  rw [Regex.m_alt, Regex.m_cat_cons, Regex.m_lit_eq_none (by simp [Ne.symm hs]), Option.none_orElse',
    Regex.m_alt, Regex.m_cat_cons, Regex.m_lit_eq_none (by simp [Ne.symm hs]), Option.none_orElse', Regex.m_alt]
  rcases hq with rfl | rfl
  · rw [m_quotedLiteral_ne (by decide), Option.none_orElse', m_quotedLiteral (by decide) h rfl]
  · rw [m_quotedLiteral (by decide) h rfl]
    rfl

theorem matchPrefix_plain {c : Char} {t : Str} (hq : ¬ (c = '"' ∨ c = '\''))
    (h1 : ∀ t', c = '/' → t = '/' :: t' → False) (h2 : ∀ t', c = '/' → t = '*' :: t' → False) :
    reCommentRemover.matchPrefix (c :: t) = none := by
  unfold Regex.matchPrefix reCommentRemover
  rw [Regex.m_alt, Regex.m_cat_cons, Regex.m_lit_eq_none fun ⟨v, hv⟩ => h1 v (by simp at hv; exact hv.1.symm) (by simp at hv; exact hv.2.symm),
    Option.none_orElse', Regex.m_alt, Regex.m_cat_cons,
    Regex.m_lit_eq_none fun ⟨v, hv⟩ => h2 v (by simp at hv; exact hv.1.symm) (by simp at hv; exact hv.2.symm),
    Option.none_orElse', Regex.m_alt, m_quotedLiteral_ne (not_or.1 hq).2, Option.none_orElse',
    m_quotedLiteral_ne (not_or.1 hq).1]

theorem matchPrefix_nil : reCommentRemover.matchPrefix [] = none := rfl

theorem afterBlockComment_suffix : ∀ {t u : Str}, afterBlockComment t = some u → u <:+ t := by
  intro t
  induction t using afterBlockComment.induct with
  | case1 s => intro u h; cases h; exact List.suffix_cons _ _ |>.trans (List.suffix_cons _ _)
  | case2 c s hne ih =>
    intro u h
    rw [afterBlockComment.eq_2 c s hne] at h
    exact (ih h).trans (List.suffix_cons _ _)
  | case3 => intro u h; cases h

/-! ## `_RemoveComments` runs the scanner -/

/-- One replacement of `_RemoveComments`: a match at the front is dropped when
it starts with `/` (a comment) and kept otherwise (a literal). -/
theorem subAux_removeComments_match {s rest : Str} (h : reCommentRemover.matchPrefix s = some (rest, []))
    (hlt : rest.length < s.length) (n : Nat) :
    reCommentRemover.subAux (fun mt => if startswith mt.text "/".toList then [] else mt.text) (n + 1) s =
      (if s.head? = some '/' then [] else s.take (s.length - rest.length)) ++
        reCommentRemover.subAux (fun mt => if startswith mt.text "/".toList then [] else mt.text) n rest := by
  rw [Regex.subAux_of_matchPrefix h hlt]
  obtain ⟨c, s, rfl⟩ := List.exists_cons_of_length_pos (Nat.zero_lt_of_lt hlt)
  obtain ⟨m, hm⟩ : ∃ m, (c :: s).length - rest.length = m + 1 := ⟨_, (Nat.succ_pred_eq_of_pos (by omega)).symm⟩
  simp only [hm, List.take_succ_cons, List.head?_cons, Option.some.injEq]
  by_cases hc : c = '/'
  · simp [startswith, hc]
  · simp [startswith, hc, Ne.symm hc]

/-- Where the scanner accepts a text whose line comments all end at `\n`, the
substitution loop of `_RemoveComments` keeps exactly what the scanner keeps. -/
theorem subAux_removeComments_eq_javaLex : ∀ (s : Str) (n : Nat) (out : Str), s.length < n →
    lineCommentsEndAtLf .code s = true → javaLex .code s = some out →
    reCommentRemover.subAux (fun mt => if startswith mt.text "/".toList then [] else mt.text) n s = out := by
  intro s
  generalize hs : s.length = len
  induction len using Nat.strong_induction_on generalizing s with
  | _ len ih =>
  intro n out hn hr hlex
  obtain ⟨n, rfl⟩ : ∃ m, n = m + 1 := ⟨n - 1, by omega⟩
  rcases s with _ | ⟨c, t⟩
  · cases hlex
    rfl
  by_cases hq : c = '"' ∨ c = '\''
  · -- a literal, kept whole
    have hqs : c ≠ '/' ∧ c ≠ '\\' := by rcases hq with rfl | rfl <;> decide
    rw [javaLex.eq_3 c t (fun _ h => absurd h hqs.1) (fun _ h => absurd h hqs.1), if_pos hq] at hlex
    obtain ⟨out, hl, rfl⟩ := Option.map_eq_some'.1 hlex
    rcases ha : afterLiteral c t with _ | r
    · rw [(javaLex_literal hqs.2 t).2 ha] at hl
      cases hl
    obtain ⟨w, rfl, hw⟩ := (javaLex_literal hqs.2 _).1 r ha
    rw [hw] at hl
    obtain ⟨out, hr', rfl⟩ := Option.map_eq_some'.1 hl
    have hlen : r.length < (c :: (w ++ r)).length := by simp; omega
    rw [subAux_removeComments_match (matchPrefix_literal hq ha) hlen, List.head?_cons,
      if_neg (by simpa using hqs.1), ← List.cons_append, Regex.take_length_sub_append,
      ih r.length (by simp only [List.length_cons, List.length_append] at hs; omega) r rfl n out
        (by simp only [List.length_cons, List.length_append] at hs; omega)
        (by rwa [lineCommentsEndAtLf.eq_3 c _ (fun _ h => absurd h hqs.1) (fun _ h => absurd h hqs.1), if_pos hq,
          lineCommentsEndAtLf_literal hqs.2 ha] at hr) hr']
    rfl
  by_cases h1 : ∃ t', c = '/' ∧ t = '/' :: t'
  · -- a line comment, dropped up to its line break
    obtain ⟨t, rfl, rfl⟩ := h1
    obtain ⟨hlc, hr'⟩ := javaLex_lineComment (by rwa [lineCommentsEndAtLf.eq_1] at hr)
    rw [javaLex.eq_1, hlc] at hlex
    have hsuf := List.dropWhile_suffix (fun c => decide (c ≠ '\n')) (l := t)
    rw [subAux_removeComments_match (matchPrefix_lineComment t) (by simp only [List.length_cons]; have := hsuf.length_le; omega),
      List.head?_cons, if_pos rfl, List.nil_append]
    exact ih _ (by simp only [List.length_cons] at hs; have := hsuf.length_le; omega) _ rfl n out
      (by simp only [List.length_cons] at hs; have := hsuf.length_le; omega) hr' hlex
  by_cases h2 : ∃ t', c = '/' ∧ t = '*' :: t'
  · -- a block comment, dropped
    obtain ⟨t, rfl, rfl⟩ := h2
    rw [javaLex.eq_2, javaLex_blockComment] at hlex
    obtain ⟨u, hu, hlex⟩ := Option.bind_eq_some.1 hlex
    have hsuf := afterBlockComment_suffix hu
    rw [subAux_removeComments_match (matchPrefix_blockComment hu) (by simp only [List.length_cons]; have := hsuf.length_le; omega),
      List.head?_cons, if_pos rfl, List.nil_append]
    exact ih _ (by simp only [List.length_cons] at hs; have := hsuf.length_le; omega) _ rfl n out
      (by simp only [List.length_cons] at hs; have := hsuf.length_le; omega)
      (by rwa [lineCommentsEndAtLf.eq_2, lineCommentsEndAtLf_blockComment hu] at hr) hlex
  · -- any other character, copied
    have hs1 : ∀ t', c = '/' → t = '/' :: t' → False := fun t' hc ht => h1 ⟨t', hc, ht⟩
    have hs2 : ∀ t', c = '/' → t = '*' :: t' → False := fun t' hc ht => h2 ⟨t', hc, ht⟩
    rw [javaLex.eq_3 c t hs1 hs2, if_neg hq] at hlex
    obtain ⟨out, hl, rfl⟩ := Option.map_eq_some'.1 hlex
    rw [Regex.subAux_cons_of_matchPrefix_eq_none ?_ (matchPrefix_plain hq hs1 hs2),
      ih t.length (by simp only [List.length_cons] at hs; omega) t rfl (n + 1) out
        (by simp only [List.length_cons] at hs; omega) (by rwa [lineCommentsEndAtLf.eq_3 c t hs1 hs2, if_neg hq] at hr) hl]
    exact fun _ _ => rfl

/-- On a text whose line comments all end at `\n` or at the end of the text,
and whose literals and block comments are all closed, `_RemoveComments`
deletes exactly the comments. -/
theorem removeComments_eq_javaLex {s out : Str} (hr : lineCommentsEndAtLf .code s = true)
    (h : javaLex .code s = some out) : removeComments s = out :=
  subAux_removeComments_eq_javaLex s _ out (Nat.lt_succ_self _) hr h

/-- Lines ended by `\r\n`, with a `\r` inside a block comment, and a line
comment ended by `\n`. -/
theorem removeComments_eq_javaLex_sample :
    let s := "String u = \"http://x\";\r\n/* a \"b\r\n */ char q = '\"'; // c\nint d = 1; /* e // */\r\n".toList
    lineCommentsEndAtLf .code s = true ∧
      javaLex .code s = some "String u = \"http://x\";\r\n char q = '\"'; \nint d = 1; \r\n".toList ∧
      removeComments s = "String u = \"http://x\";\r\n char q = '\"'; \nint d = 1; \r\n".toList :=
  ⟨rfl, rfl, removeComments_eq_javaLex rfl rfl⟩

set_option maxRecDepth 10000 in
/-- `$` only stops before `\n`: after `// c` a `\r\n` loses its `\r`, and a
lone `\r` ends no comment, so the next line goes with it. -/
theorem removeComments_line_comment_eats_cr :
    javaLex .code "int a; // c\r\nint b;\n".toList = some "int a; \r\nint b;\n".toList ∧
    removeComments "int a; // c\r\nint b;\n".toList = "int a; \nint b;\n".toList ∧
    javaLex .code "int a; // c\rint b;\n".toList = some "int a; \rint b;\n".toList ∧
    removeComments "int a; // c\rint b;\n".toList = "int a; \n".toList :=
  ⟨rfl, rfl, rfl, rfl⟩

/-! ## Removing comments twice -/

/-- The state the scanner resumes in on its own output: a comment is gone, so
the text after it is read as code. -/
def LexState.resume : LexState → LexState
  | .lineComment => .code
  | .blockComment => .code
  | st => st

@[simp] theorem LexState.resume_code : LexState.code.resume = .code := rfl
@[simp] theorem LexState.resume_literal (q : Char) : (LexState.literal q).resume = .literal q := rfl
@[simp] theorem LexState.resume_escape (q : Char) : (LexState.escape q).resume = .escape q := rfl

theorem LexState.resume_codeStep (c : Char) :
    (if c = '"' ∨ c = '\'' then LexState.literal c else .code).resume =
      if c = '"' ∨ c = '\'' then LexState.literal c else .code := by
  split_ifs <;> rfl

theorem LexState.resume_literalStep (q c : Char) :
    (if c = '\\' then LexState.escape q else if c = q then .code else .literal q).resume =
      if c = '\\' then LexState.escape q else if c = q then .code else .literal q := by
  split_ifs <;> rfl

/-- Code that does not start with `/` keeps its first character. -/
theorem javaLex_code_head {s out : Str} (h : javaLex .code s = some out) (hs : s.head? ≠ some '/') :
    out.head? = s.head? := by
  match s, h with
  | [], h => cases h; rfl
  | c :: t, h =>
    have hc : c ≠ '/' := fun hc => hs (by rw [hc]; rfl)
    rw [javaLex.eq_3 c t (fun _ h => absurd h hc) (fun _ h => absurd h hc)] at h
    obtain ⟨o, -, rfl⟩ := Option.map_eq_some'.1 h
    rfl

/-- The scanner keeps its own output: what it keeps holds no comment and no
open literal. A `/` kept in code is never followed by `/` or `*`, since the
scanner would have read the pair as a comment. -/
theorem javaLex_resume : ∀ {st : LexState} {s out : Str}, javaLex st s = some out →
    javaLex st.resume out = some out := by
  intro st s
  induction st, s using javaLex.induct with
  | case1 s ih => exact fun h => ih ((javaLex.eq_1 s).symm.trans h)
  | case2 s ih => exact fun h => ih ((javaLex.eq_2 s).symm.trans h)
  | case3 c s h1 h2 ih =>
    intro out h
    rw [javaLex.eq_3 c s h1 h2] at h
    obtain ⟨o, ho, rfl⟩ := Option.map_eq_some'.1 h
    rw [LexState.resume_codeStep] at ih
    -- a `/` kept in code is followed by neither `/` nor `*`
    have hnext : ∀ x, x = '/' ∨ x = '*' → c = '/' → o.head? ≠ some x := by
      rintro x hx rfl hox
      rw [if_neg (by decide)] at ho
      have hs1 : s.head? ≠ some '/' := fun hs => by
        obtain ⟨t, rfl⟩ := List.head?_eq_some_iff.1 hs
        exact h1 t rfl rfl
      rw [javaLex_code_head ho hs1] at hox
      obtain ⟨t, rfl⟩ := List.head?_eq_some_iff.1 hox
      rcases hx with rfl | rfl
      · exact h1 t rfl rfl
      · exact h2 t rfl rfl
    rw [LexState.resume_code, javaLex.eq_3 c o (fun t hc ht => hnext '/' (.inl rfl) hc (by rw [ht]; rfl))
      (fun t hc ht => hnext '*' (.inr rfl) hc (by rw [ht]; rfl)), ih ho]
    rfl
  | case4 c s hc ih =>
    intro out h
    rw [javaLex.eq_4, if_pos hc] at h
    obtain ⟨o, ho, rfl⟩ := Option.map_eq_some'.1 h
    have hc' : c ≠ '/' ∧ ¬ (c = '"' ∨ c = '\'') := by rcases hc with rfl | rfl <;> decide
    rw [LexState.resume_code] at ih
    rw [LexState.resume, javaLex.eq_3 c o (fun _ h => absurd h hc'.1) (fun _ h => absurd h hc'.1),
      if_neg hc'.2, ih ho]
    rfl
  | case5 c s hc ih =>
    intro out h
    rw [javaLex.eq_4, if_neg hc] at h
    exact ih h
  | case6 s ih => exact fun h => ih ((javaLex.eq_5 s).symm.trans h)
  | case7 c s hc ih => exact fun h => ih ((javaLex.eq_6 c s hc).symm.trans h)
  | case8 q c s ih =>
    intro out h
    rw [javaLex.eq_7] at h
    obtain ⟨o, ho, rfl⟩ := Option.map_eq_some'.1 h
    rw [LexState.resume_literalStep] at ih
    rw [LexState.resume_literal, javaLex.eq_7, ih ho]
    rfl
  | case9 q c s ih =>
    intro out h
    rw [javaLex.eq_8] at h
    obtain ⟨o, ho, rfl⟩ := Option.map_eq_some'.1 h
    rw [LexState.resume_literal] at ih
    rw [LexState.resume_escape, javaLex.eq_8, ih ho]
    rfl
  | case10 | case11 => intro out h; cases h; rfl
  | case12 st h1 h2 =>
    intro out h
    cases st with
    | code => exact (h1 rfl).elim
    | lineComment => exact (h2 rfl).elim
    | _ => cases h

/-- Removing comments twice is removing them once, on every text without `\r`
whose literals and block comments are all closed. -/
theorem removeComments_removeComments {s : Str} (hr : '\r' ∉ s) (h : javaLex .code s ≠ none) :
    removeComments (removeComments s) = removeComments s := by
  obtain ⟨out, hout⟩ := Option.ne_none_iff_exists'.1 h
  have h1 : removeComments s = out :=
    subAux_removeComments_eq_javaLex s _ out (Nat.lt_succ_self _) (lineCommentsEndAtLf_of_not_mem hr) hout
  rw [h1]
  exact subAux_removeComments_eq_javaLex out _ out (Nat.lt_succ_self _)
    (lineCommentsEndAtLf_of_not_mem fun hm => hr ((javaLex_sublist hout).subset hm)) (javaLex_resume hout)

theorem removeComments_removeComments_sample :
    '\r' ∉ "int a = b / /* c */ d; String e = \"//f\"; // g\n".toList ∧
    javaLex .code "int a = b / /* c */ d; String e = \"//f\"; // g\n".toList ≠ none ∧
    removeComments (removeComments "int a = b / /* c */ d; String e = \"//f\"; // g\n".toList) =
      removeComments "int a = b / /* c */ d; String e = \"//f\"; // g\n".toList :=
  ⟨by decide, by decide, removeComments_removeComments (by decide) (by decide)⟩

end JniGenerator
