import JniGenerator.Descriptors

/-!
# The JNI signature as a JVM method descriptor

`Signature` writes `(`, the descriptors `JavaToJni` resolves the parameter
types to, `)` and the descriptor of the return type, as one quoted string or,
for the registration table and `GetMethodID`, as one quoted line per item.
The C compiler joins adjacent literals (`cStringLiterals`), and the JVM reads
the string with the grammar of method descriptors (JVMS §4.3):
`decodeMethodDescriptor` is that grammar, with a class name read up to the
first `;`.

Each decoder lemma is stated for a descriptor followed by any text, so that
the parameters decode one after another (`decodeParams_flatten`), and each
literal lemma for a literal followed by any text. Proved here:

* `isFieldDescriptor_javaToJni`: in a class state whose names hold none of
  the `stopChars` (`Avoids`), `JavaToJni` writes a field descriptor that a C
  literal holds as it is, for every type name without them whose element
  type is not `void`;
* `decodeMethodDescriptor_signature`: in both layouts, the C string of the
  signature is a method descriptor that decodes to the parameter
  descriptors, in order, and the return descriptor.
-/

namespace JniGenerator

/-! ## The descriptor grammar -/

/-- The base type letters of field descriptors. -/
def baseTypeLetters : Str := "BCDFIJSZ".toList

/-- A field descriptor off the front of the text, with the text after it. -/
def decodeFieldType : Str → Option (Str × Str)
  | '[' :: rest => (decodeFieldType rest).map fun r => ('[' :: r.1, r.2)
  | 'L' :: rest =>
    if ';' ∈ rest then some ('L' :: rest.takeWhile (· ≠ ';') ++ [';'], (rest.dropWhile (· ≠ ';')).tail)
    else none
  | c :: rest => if c ∈ baseTypeLetters then some ([c], rest) else none
  | [] => none

/-- A return descriptor: `V` or a field descriptor. -/
def decodeReturnType : Str → Option (Str × Str)
  | 'V' :: rest => some (['V'], rest)
  | s => decodeFieldType s

/-- Field descriptors up to the `)` that closes the parameters, at most `n` of them. -/
def decodeParams : Nat → Str → Option (List Str × Str)
  | _, ')' :: rest => some ([], rest)
  | 0, _ => none
  | n + 1, s => do
    let (d, r) ← decodeFieldType s
    let (ds, r') ← decodeParams n r
    pure (d :: ds, r')

/-- A whole method descriptor: its parameter descriptors and its return descriptor. -/
def decodeMethodDescriptor : Str → Option (List Str × Str)
  | '(' :: rest => do
    let (args, r) ← decodeParams rest.length rest
    let (ret, r') ← decodeReturnType r
    if r' = [] then pure (args, ret) else none
  | _ => none

/-- `d` is read as one field descriptor, whatever text follows it. -/
def IsFieldDescriptor (d : Str) : Prop := ∀ rest, decodeFieldType (d ++ rest) = some (d, rest)

theorem isFieldDescriptor_base {c : Char} (hc : c ∈ baseTypeLetters) : IsFieldDescriptor [c] := by
  intro rest
  have hne : ∀ c ∈ baseTypeLetters, c ≠ '[' ∧ c ≠ 'L' := by decide
  rw [List.singleton_append, decodeFieldType.eq_3 c rest (hne c hc).1 (hne c hc).2, if_pos hc]

theorem isFieldDescriptor_object {x : Str} (hx : ';' ∉ x) : IsFieldDescriptor ('L' :: x ++ [';']) := by
  intro rest
  have htake := JniParams.takeWhile_append_cons_of_not_mem hx rest
  have hdrop : (x ++ ';' :: rest).dropWhile (· ≠ ';') = ';' :: rest := by
    have h := List.takeWhile_append_dropWhile (· ≠ ';') (x ++ ';' :: rest)
    rw [htake] at h
    exact List.append_cancel_left h
  rw [List.append_assoc, List.singleton_append, List.cons_append, decodeFieldType,
    if_pos (List.mem_append_right _ (.head _)), htake, hdrop]
  rfl

theorem isFieldDescriptor_arrays {d : Str} (h : IsFieldDescriptor d) (k : Nat) :
    IsFieldDescriptor (List.replicate k '[' ++ d) := by
  induction k with
  | zero => exact h
  | succ k ih =>
    intro rest
    rw [List.replicate_succ, List.cons_append, List.cons_append, decodeFieldType, ih]
    rfl

/-- A field descriptor is not empty and starts with neither `)` nor `V`. -/
theorem IsFieldDescriptor.head {d : Str} (h : IsFieldDescriptor d) :
    ∃ c t, d = c :: t ∧ c ≠ ')' ∧ c ≠ 'V' := by
  match d, h [] with
  | c :: t, h' =>
    refine ⟨c, t, rfl, fun hc => ?_, fun hc => ?_⟩ <;> (subst hc; simp [decodeFieldType, baseTypeLetters] at h')

theorem decodeReturnType_of_decodeFieldType {s : Str} {r : Str × Str} (h : decodeFieldType s = some r) :
    decodeReturnType s = some r := by
  match s, h with
  | 'V' :: t, h => simp [decodeFieldType, baseTypeLetters] at h
  | [], h => simp [decodeFieldType] at h
  | c :: t, h =>
    by_cases hc : c = 'V'
    · subst hc
      simp [decodeFieldType, baseTypeLetters] at h
    · rw [decodeReturnType.eq_2 _ fun rest he => hc (List.cons.inj he).1]
      exact h

theorem length_le_length_flatten {args : List Str} (h : ∀ d ∈ args, d ≠ []) :
    args.length ≤ args.flatten.length := by
  induction args with
  | nil => exact le_refl _
  | cons d ds ih =>
    have hd : 0 < d.length := List.length_pos.2 (h d (.head _))
    have := ih fun d' hd' => h d' (.tail _ hd')
    simp only [List.length_cons, List.flatten_cons, List.length_append]
    omega

theorem decodeParams_flatten {args : List Str} (h : ∀ d ∈ args, IsFieldDescriptor d) (rest : Str) :
    ∀ {n : Nat}, args.length ≤ n → decodeParams n (args.flatten ++ ')' :: rest) = some (args, rest) := by
  induction args with
  | nil => intro n _; cases n <;> rfl
  | cons d ds ih =>
    intro n hn
    obtain ⟨m, rfl⟩ : ∃ m, n = m + 1 := ⟨n - 1, by simp at hn; omega⟩
    obtain ⟨c, t, hd, hc, -⟩ := (h d (.head _)).head
    have hne : ∀ r, d ++ ds.flatten ++ ')' :: rest ≠ ')' :: r := fun r he => by
      rw [hd] at he
      exact hc (List.cons.inj he).1
    rw [List.flatten_cons, decodeParams.eq_3 _ _ fun r he => hne r he, List.append_assoc,
      h d (.head _)]
    dsimp only [bind, Option.bind]
    rw [ih (fun d' hd' => h d' (.tail _ hd')) (by simpa using hn)]
    rfl

theorem decodeMethodDescriptor_eq {args : List Str} {ret : Str} (hargs : ∀ d ∈ args, IsFieldDescriptor d)
    (hret : decodeReturnType ret = some (ret, [])) :
    decodeMethodDescriptor ('(' :: args.flatten ++ ')' :: ret) = some (args, ret) := by
  have hn : args.length ≤ (args.flatten ++ ')' :: ret).length := by
    have := length_le_length_flatten fun d hd => by
      obtain ⟨c, t, rfl, -⟩ := (hargs d hd).head
      exact List.cons_ne_nil c t
    simp only [List.length_append]
    omega
  rw [List.cons_append, decodeMethodDescriptor, decodeParams_flatten hargs ret hn]
  dsimp only [bind, Option.bind]
  rw [hret]
  rfl

theorem exists_of_mem_mapM_eq_ok {α β : Type} {f : α → Except Error β} {l : List α} {r : List β}
    (hl : l.mapM f = .ok r) {b : β} (hb : b ∈ r) : ∃ a ∈ l, f a = .ok b := by
  have h := mapM_eq_ok_iff.mp hl
  clear hl
  induction h with
  | nil => simp at hb
  | cons hxy _ ih =>
    rcases List.mem_cons.mp hb with rfl | hb
    · exact ⟨_, .head _, hxy⟩
    · obtain ⟨a, ha, hab⟩ := ih hb
      exact ⟨a, .tail _ ha, hab⟩

/-- The element type of a name is not `void` when the name does not read
`void` up to its first `<` or `[`. -/
theorem element_ne_void {e : Str} {k : Nat}
    (hv : (e ++ (List.replicate k "[]".toList).flatten).takeWhile (fun c => c != '<' && c != '[') ≠
      "void".toList) : e.takeWhile (· ≠ '<') ≠ "void".toList := by
  intro he
  apply hv
  have hsplit := List.takeWhile_append_dropWhile (· ≠ '<') e
  rw [he] at hsplit
  have hr : (e.dropWhile (· ≠ '<')).head? = none ∨ (e.dropWhile (· ≠ '<')).head? = some '<' := by
    have h := List.head?_dropWhile_not (· ≠ '<') e
    revert h
    cases (e.dropWhile (· ≠ '<')).head? with
    | none => exact fun _ => .inl rfl
    | some c => exact fun h => .inr (by simpa using h)
  have htail : (e.dropWhile (· ≠ '<') ++ (List.replicate k "[]".toList).flatten).takeWhile
      (fun c => c != '<' && c != '[') = [] := by
    rcases hr with hr | hr
    · rw [List.head?_eq_none_iff.1 hr, List.nil_append]
      cases k <;> rfl
    · obtain ⟨t, ht⟩ := List.head?_eq_some_iff.1 hr
      rw [ht]
      rfl
  rw [← hsplit, List.append_assoc, List.takeWhile_append_of_pos (by decide), htail, List.append_nil]

theorem join_nil_eq_flatten : ∀ ls : List Str, join [] ls = ls.flatten
  | [] => rfl
  | [_] => by simp [join, List.intercalate]
  | a :: b :: t => by
    simp only [join_cons_cons, join_nil_eq_flatten (b :: t), List.append_nil, List.flatten_cons]

/-! ## Adjacent C string literals -/

/-- The characters a C string literal does not hold as they are. -/
def literalStops : Str := ['"', '\\', '\n']

/-- The characters kept out of the names: `;` ends a class name in a
descriptor, and the others end or escape a C string literal. -/
def stopChars : Str := ';' :: literalStops

/-- The value of adjacent C string literals separated by blanks and newlines,
as the compiler joins them; `inLiteral` says whether a literal is open. A
backslash is rejected, as escapes are not modelled, and so is a newline in a
literal. -/
def cStringLiteralsAux : Bool → Str → Option Str
  | false, [] => some []
  | false, '"' :: rest => cStringLiteralsAux true rest
  | false, c :: rest => if c = ' ' ∨ c = '\n' then cStringLiteralsAux false rest else none
  | true, '"' :: rest => cStringLiteralsAux false rest
  | true, c :: rest => if c = '\\' ∨ c = '\n' then none else (cStringLiteralsAux true rest).map (c :: ·)
  | true, [] => none

def cStringLiterals (s : Str) : Option Str := cStringLiteralsAux false s

theorem cStringLiteralsAux_body {body : Str} (hb : ∀ c ∈ body, c ∉ literalStops) (rest : Str) :
    cStringLiteralsAux true (body ++ '"' :: rest) = (cStringLiteralsAux false rest).map (body ++ ·) := by
  induction body with
  | nil => simp [cStringLiteralsAux]
  | cons c body ih =>
    have hc : c ≠ '"' ∧ ¬ (c = '\\' ∨ c = '\n') := by
      have h := hb c (.head _)
      simp only [literalStops, List.mem_cons, List.not_mem_nil, or_false, not_or] at h
      exact ⟨h.1, not_or.2 h.2⟩
    rw [List.cons_append, cStringLiteralsAux.eq_5 _ _ hc.1, if_neg hc.2,
      ih fun c' hc' => hb c' (.tail _ hc'), Option.map_map]
    rfl

/-- One literal `"item"` before any text. -/
theorem cStringLiteralsAux_quote {item : Str} (hi : ∀ c ∈ item, c ∉ literalStops) (rest : Str) :
    cStringLiteralsAux false ('"' :: item ++ "\"".toList ++ rest) =
      (cStringLiteralsAux false rest).map (item ++ ·) := by
  rw [List.append_assoc, List.cons_append, cStringLiteralsAux, ← cStringLiteralsAux_body hi]
  rfl

/-- The literals `Signature` writes one per line are joined into their concatenation. -/
theorem cStringLiteralsAux_join {items : List Str} (h : ∀ i ∈ items, ∀ c ∈ i, c ∉ literalStops) :
    cStringLiteralsAux false (join "\n".toList (items.map fun item => '"' :: item ++ "\"".toList)) =
      some items.flatten := by
  match items with
  | [] => rfl
  | [a] =>
    rw [List.map_singleton, join_singleton, ← List.append_nil ('"' :: a ++ "\"".toList),
      cStringLiteralsAux_quote (h a (.head _))]
    simp [cStringLiteralsAux]
  | a :: b :: t =>
    have ih : cStringLiteralsAux false (join "\n".toList ((b :: t).map fun item => '"' :: item ++ "\"".toList)) =
        some (b :: t).flatten := cStringLiteralsAux_join fun i hi => h i (.tail _ hi)
    have hnl : ∀ r, cStringLiteralsAux false ("\n".toList ++ r) = cStringLiteralsAux false r := fun _ => rfl
    rw [List.map_cons] at ih
    rw [List.map_cons, List.map_cons, join_cons_cons, List.append_assoc,
      cStringLiteralsAux_quote (h a (.head _)), hnl, ih]
    rfl

/-- One literal alone. -/
theorem cStringLiterals_quote {item : Str} (hi : ∀ c ∈ item, c ∉ literalStops) :
    cStringLiterals ('"' :: item ++ "\"".toList) = some item := by
  rw [cStringLiterals, ← List.append_nil ('"' :: item ++ "\"".toList), cStringLiteralsAux_quote hi]
  simp [cStringLiteralsAux]

namespace JniParams

/-- The names of the class state do not hold the character `c`. -/
structure Avoids (c : Char) (p : JniParams) : Prop where
  fullyQualifiedClass_avoids : c ∉ p.fullyQualifiedClass
  package_avoids : c ∉ p.package
  innerClasses_avoids : ∀ q ∈ p.innerClasses, c ∉ q
  imports_avoids : ∀ q ∈ p.imports, c ∉ q

theorem not_mem_getLastD_split {c : Char} {e : Str} (he : c ∉ e) (sep : Char) :
    c ∉ (split e sep).getLastD [] := by
  have hsub : ∀ l ∈ split e sep, l <:+: e := fun l hl => by
    have h : l <:+: join [sep] (split e sep) := infix_join_of_mem hl
    rwa [join, split, List.intercalate_splitOn] at h
  rw [List.getLastD_eq_getLast?]
  cases hl : (split e sep).getLast? with
  | none => exact List.not_mem_nil c
  | some l => exact fun hm => he ((hsub l (List.mem_of_getLast?_eq_some hl)).subset hm)

section
variable {p : JniParams} {implicitImports : List Str} (hp : p.Qualified)
  (hfqc : p.fullyQualifiedClass.head? = some 'L')
include hp hfqc

/-- Past the primitives, the class name of the object descriptor `resolveElement`
writes avoids a stop character that neither the name nor the class state holds. -/
theorem resolveElement_form {c : Char} (hc : c ∈ stopChars) (hs : p.Avoids c) {e d : Str} (he : c ∉ e)
    (h : resolveElement p implicitImports e = .ok d) :
    podParamMap.lookup e = some d ∨ ∃ x, c ∉ x ∧ d = 'L' :: x ++ [';'] := by
  have hstop : ∀ c ∈ stopChars, c ≠ '$' ∧ c ≠ '/' ∧ ∀ q ∈ objectParamList, c ∉ q := by decide
  have himport : ∀ q ∈ p.imports, ∃ x, c ∉ x ∧ q = 'L' :: x := fun q hq => by
    obtain ⟨x, rfl⟩ := hp.import_eq hq
    exact ⟨x, fun hm => hs.imports_avoids _ hq (.tail _ hm), rfl⟩
  rcases resolveElement_eq_ok h with hpod | ⟨-, ⟨-, rfl⟩ | ⟨-, ⟨q, hq, rfl⟩ |
    ⟨-, ⟨q, hqi, -, rfl⟩ | ⟨q, hqi, -, rfl⟩ | ⟨-, rfl⟩⟩⟩⟩
  · exact .inl hpod
  · exact .inr ⟨e, he, rfl⟩
  · have hmem := List.mem_of_find?_eq_some hq
    obtain ⟨x, rfl⟩ := hp.candidate_eq hfqc hmem
    refine .inr ⟨x, fun hm => ?_, rfl⟩
    simp only [List.mem_append, List.mem_singleton] at hmem
    rcases hmem with (hmem | hmem) | hmem
    · exact (hstop c hc).2.2 _ hmem (.tail _ hm)
    · exact hs.fullyQualifiedClass_avoids (hmem ▸ .tail _ hm)
    · exact hs.innerClasses_avoids _ hmem (.tail _ hm)
  · obtain ⟨x, hx, rfl⟩ := himport q hqi
    exact .inr ⟨x, hx, rfl⟩
  · obtain ⟨x, hx, rfl⟩ := himport q hqi
    refine .inr ⟨x ++ '$' :: (split e '.').getLastD [], ?_, by simp⟩
    simp only [List.mem_append, List.mem_cons, not_or]
    exact ⟨hx, (hstop c hc).1, not_mem_getLastD_split he '.'⟩
  · refine .inr ⟨p.package ++ '/' :: e, ?_, by simp⟩
    simp only [List.mem_append, List.mem_cons, not_or]
    exact ⟨hs.package_avoids, (hstop c hc).2.1, he⟩

section
variable (hs : ∀ c ∈ stopChars, p.Avoids c)
include hs

/-- `JavaToJni` writes a field descriptor that a C string literal holds as it
is, for a name with no stop character whose element type is not `void`. -/
theorem isFieldDescriptor_javaToJni {t d : Str} (ht : ∀ c ∈ stopChars, c ∉ t)
    (hvoid : t.takeWhile (fun c => c != '<' && c != '[') ≠ "void".toList)
    (h : javaToJni p implicitImports t = .ok d) : IsFieldDescriptor d ∧ ∀ c ∈ d, c ∉ literalStops := by
  obtain ⟨e, k, he, rfl⟩ := exists_eq_append_arrays t
  rw [javaToJni_append_arrays, javaToJni_of_not_array p implicitImports he] at h
  obtain ⟨de, hde, rfl⟩ := (except_map_eq_ok _ _ _).1 h
  have helem : ∀ c ∈ stopChars, c ∉ e.takeWhile (· ≠ '<') := fun c hc hm =>
    ht c hc (List.mem_append_left _ ((List.takeWhile_sublist _).subset hm))
  have hbrackets : ∀ c ∈ literalStops, c ∉ List.replicate k '[' := fun c hc hm => by
    rw [List.eq_of_mem_replicate hm] at hc
    exact absurd hc (by decide)
  refine ⟨isFieldDescriptor_arrays ?_ k, fun c hm hc => ?_⟩
  · rcases resolveElement_form hp hfqc (by decide) (hs ';' (by decide)) (helem ';' (by decide)) hde with
      hpod | ⟨x, hx, rfl⟩
    · obtain ⟨l₁, l₂, hl, -⟩ := List.lookup_eq_some_iff.1 hpod
      have htbl : ∀ y ∈ podParamMap, y.1 = "void".toList ∨ ∃ c ∈ baseTypeLetters, y.2 = [c] := by decide
      rcases htbl (e.takeWhile (· ≠ '<'), de) (hl ▸ by simp) with hv | ⟨c, hc, hcd : de = [c]⟩
      · exact absurd hv (element_ne_void hvoid)
      · exact hcd ▸ isFieldDescriptor_base hc
    · exact isFieldDescriptor_object hx
  · have hcs : c ∈ stopChars := .tail _ hc
    rcases List.mem_append.1 hm with hm | hm
    · exact hbrackets c hc hm
    rcases resolveElement_form hp hfqc hcs (hs c hcs) (helem c hcs) hde with hpod | ⟨x, hx, rfl⟩
    · obtain ⟨l₁, l₂, hl, -⟩ := List.lookup_eq_some_iff.1 hpod
      have htbl : ∀ y ∈ podParamMap, ∀ c ∈ y.2, c ∉ literalStops := by decide
      exact htbl (e.takeWhile (· ≠ '<'), de) (hl ▸ by simp) c hm hc
    · have hL : 'L' ∉ literalStops ∧ ';' ∉ literalStops := by decide
      simp only [List.mem_append, List.mem_cons, List.not_mem_nil, or_false] at hm
      rcases hm with (rfl | hm) | rfl
      · exact hL.1 hc
      · exact hx hm
      · exact hL.2 hc

/-- The return descriptor: `V` for `void`, else a field descriptor. -/
theorem decodeReturnType_javaToJni {t d : Str} (ht : ∀ c ∈ stopChars, c ∉ t)
    (hvoid : t.takeWhile (fun c => c != '<' && c != '[') = "void".toList → t = "void".toList)
    (h : javaToJni p implicitImports t = .ok d) :
    decodeReturnType d = some (d, []) ∧ ∀ c ∈ d, c ∉ literalStops := by
  by_cases hv : t.takeWhile (fun c => c != '<' && c != '[') = "void".toList
  · have hV : javaToJni p implicitImports "void".toList = .ok "V".toList := rfl
    rw [hvoid hv, hV] at h
    cases h
    exact ⟨rfl, by decide⟩
  · obtain ⟨hd, hsafe⟩ := isFieldDescriptor_javaToJni hp hfqc hs ht hv h
    exact ⟨decodeReturnType_of_decodeFieldType (by simpa using hd []), hsafe⟩

/-- Wrapped one literal per line or not, the C string `Signature` writes is a
method descriptor that decodes to the descriptors of the parameters, in
order, and of the return type. -/
theorem decodeMethodDescriptor_signature {params : List Param} {returns s : Str} (wrap : Bool)
    (hparams : ∀ param ∈ params, (∀ c ∈ stopChars, c ∉ param.datatype) ∧
      param.datatype.takeWhile (fun c => c != '<' && c != '[') ≠ "void".toList)
    (hreturns : (∀ c ∈ stopChars, c ∉ returns) ∧
      (returns.takeWhile (fun c => c != '<' && c != '[') = "void".toList → returns = "void".toList))
    (h : signature p implicitImports params returns wrap = .ok s) :
    ∃ args ret, List.Forall₂ (fun param d => javaToJni p implicitImports param.datatype = .ok d) params args ∧
      javaToJni p implicitImports returns = .ok ret ∧
      cStringLiterals s = some ('(' :: args.flatten ++ ')' :: ret) ∧
      decodeMethodDescriptor ('(' :: args.flatten ++ ')' :: ret) = some (args, ret) := by
  unfold signature at h
  obtain ⟨args, hargs, h⟩ := (except_bind_eq_ok _ _ _).1 h
  obtain ⟨ret, hret, h⟩ := (except_bind_eq_ok _ _ _).1 h
  have hargs' : ∀ d ∈ args, IsFieldDescriptor d ∧ ∀ c ∈ d, c ∉ literalStops := fun d hd => by
    obtain ⟨param, hparam, hd⟩ := exists_of_mem_mapM_eq_ok hargs hd
    exact isFieldDescriptor_javaToJni hp hfqc hs (hparams param hparam).1 (hparams param hparam).2 hd
  obtain ⟨hretd, hrets⟩ := decodeReturnType_javaToJni hp hfqc hs hreturns.1 hreturns.2 hret
  have hitems : (["(".toList] ++ args ++ [")".toList] ++ [ret]).flatten = '(' :: args.flatten ++ ')' :: ret := by
    simp
  have hsafe : ∀ i ∈ ["(".toList] ++ args ++ [")".toList] ++ [ret], ∀ c ∈ i, c ∉ literalStops := by
    intro i hi
    simp only [List.mem_append, List.mem_singleton] at hi
    rcases hi with ((rfl | hi) | rfl) | rfl
    · decide
    · exact (hargs' i hi).2
    · decide
    · exact hrets
  refine ⟨args, ret, mapM_eq_ok_iff.1 hargs, hret, ?_,
    decodeMethodDescriptor_eq (fun d hd => (hargs' d hd).1) hretd⟩
  rw [← hitems]
  cases wrap <;> simp only [Bool.false_eq_true, ↓reduceIte, except_pure_eq_ok, Except.ok.injEq] at h <;>
    rw [← h]
  · rw [join_nil_eq_flatten]
    exact cStringLiterals_quote fun c hc => by
      obtain ⟨i, hi, hc⟩ := List.mem_flatten.1 hc
      exact hsafe i hi c hc
  · exact cStringLiteralsAux_join hsafe

end

end

end JniParams

end JniGenerator
