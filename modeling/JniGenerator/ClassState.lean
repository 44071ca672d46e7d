import JniGenerator.InnerClasses

/-!
# The class state of one file, and the inner classes `JavaToJni` resolves

`SetFullyQualifiedClass` and `ExtractImportsAndInnerClasses` leave a class
state that `JavaToJni` reads. `FileState package C` is what it reads of it for
the file of class `C` in `package`: the class and the package, imports with no
dot, and inner classes `L<package>/C$<identifier>`.

Proved here:

* `finalState_addAdditionalImports`, `finalState_extractImportsAndInnerClasses`:
  what the extraction appends to the state, however far it gets before raising;
* `fileState_setFullyQualifiedClass`, `fileState_finalState_extract`: a fresh
  state set to a class is a `FileState`, and the extraction keeps it one;
* `resolveElement_inner`, `resolveElement_qualified`: in a `FileState`, a
  recorded inner class `N` resolves to `L<package>/C$N;`, and `C.N` resolves
  through the first import that ends in `/C`, or raises;
* `javaToJni_after_extract_inner`: for one file, every `class N` or
  `interface N` of the source that no earlier match runs into resolves to
  `L<package>/C$N;`, however deep it is nested, and `C.N` resolves only when
  `C` is imported; `javaToJni_inner_classes_flattened` shows a nested class,
  an enum and a qualified name.
-/

namespace JniGenerator

namespace JniParams

/-! ## The state a step leaves -/

/-- The class state a stateful step leaves, whether it raised or not. -/
def finalState {α : Type} (x : EStateM Error JniParams α) (p : JniParams) : JniParams :=
  match x.run p with
  | .ok _ p' => p'
  | .error _ p' => p'

theorem finalState_bind {α β : Type} (x : EStateM Error JniParams α) (f : α → EStateM Error JniParams β)
    (p : JniParams) : finalState (x >>= f) p = match x.run p with
      | .ok a p' => finalState (f a) p'
      | .error _ p' => p' := by
  unfold finalState
  simp only [run_eq, bind, EStateM.bind]
  cases x p <;> rfl

/-- What `AddAdditionalImport` can do: raise and keep the state, or append
`L<package>/<name>` for a name with no dot. -/
theorem addAdditionalImport_cases (className : Str) (p : JniParams) :
    (∃ e, (addAdditionalImport className).run p = .error e p) ∨
    ∃ raw, '.' ∉ raw ∧ (addAdditionalImport className).run p =
      .ok () { p with imports := p.imports ++ ['L' :: p.package ++ '/' :: raw] } := by
  unfold addAdditionalImport
  by_cases h1 : endswith className ".class".toList = true
  · by_cases h2 : contains (className.take (className.length - ".class".length)) ".".toList = true
    · exact .inl ⟨_, by simp only [h1, h2, Bool.not_true, Bool.false_eq_true, if_false, if_true, pure_bind]; rfl⟩
    · have hdot : '.' ∉ className.take (className.length - ".class".length) := fun hm => h2 <| by
        obtain ⟨a, b, hab⟩ := List.append_of_mem hm
        exact contains_iff.mpr ⟨a, b, by rw [hab]; simp⟩
      by_cases h3 : 'L' :: p.package ++ '/' :: className.take (className.length - ".class".length) ∈ p.imports
      · exact .inl ⟨_, by
          simp only [h1, h2, Bool.not_true, Bool.false_eq_true, if_false, if_true, pure_bind]
          simp only [run_eq, bind, EStateM.bind, get, getThe, MonadStateOf.get, EStateM.get, h3, if_true]
          rfl⟩
      · refine .inr ⟨_, hdot, ?_⟩
        simp only [h1, h2, Bool.not_true, Bool.false_eq_true, if_false, if_true, pure_bind]
        simp only [run_eq, bind, EStateM.bind, get, getThe, MonadStateOf.get, EStateM.get, h3, if_false]
        rfl
  · exact .inl ⟨_, by simp only [h1, Bool.not_false, if_true, Bool.eq_false_iff.mpr h1]; rfl⟩

/-- `AddAdditionalImports` only appends imports `L<package>/<name>`, with no dot
in the name, however far it gets. -/
theorem finalState_addAdditionalImports :
    ∀ (classNames : List Str) (p : JniParams), ∃ extra : List Str,
      (∀ q ∈ extra, ∃ raw, '.' ∉ raw ∧ q = 'L' :: p.package ++ '/' :: raw) ∧
      finalState (addAdditionalImports classNames) p = { p with imports := p.imports ++ extra }
  | [], p => ⟨[], by simp, by simp [finalState, addAdditionalImports]; rfl⟩
  | className :: rest, p => by
    rw [addAdditionalImports, finalState_bind]
    rcases addAdditionalImport_cases (strip className) p with ⟨e, he⟩ | ⟨raw, hraw, he⟩
    · exact ⟨[], by simp, by rw [he]; simp⟩
    · obtain ⟨extra, hextra, hfin⟩ := finalState_addAdditionalImports rest
        { p with imports := p.imports ++ ['L' :: p.package ++ '/' :: raw] }
      refine ⟨('L' :: p.package ++ '/' :: raw) :: extra, List.forall_mem_cons.mpr ⟨⟨raw, hraw, rfl⟩, hextra⟩, ?_⟩
      simp only [he, hfin, List.append_assoc, List.singleton_append]

/-- `ExtractImportsAndInnerClasses` on a state with a package appends the imports
and the inner classes of the newline-free contents, then the additional imports. -/
theorem finalState_extractImportsAndInnerClasses (contents : Str) {p : JniParams} (hp : p.package ≠ []) :
    ∃ extra : List Str, (∀ q ∈ extra, ∃ raw, '.' ∉ raw ∧ q = 'L' :: p.package ++ '/' :: raw) ∧
      finalState (extractImportsAndInnerClasses contents) p =
        { p with imports := p.imports ++ foundImports (contents.filter (· != '\n')) ++ extra
                 innerClasses := p.innerClasses ++
                   innerClassesOf p.fullyQualifiedClass (foundInnerNames (contents.filter (· != '\n'))) } := by
  obtain ⟨extra, hextra, hfin⟩ := finalState_addAdditionalImports
    (foundAdditionalImports (contents.filter (· != '\n')))
    { p with imports := p.imports ++ foundImports (contents.filter (· != '\n'))
             innerClasses := p.innerClasses ++
               innerClassesOf p.fullyQualifiedClass (foundInnerNames (contents.filter (· != '\n'))) }
  refine ⟨extra, hextra, ?_⟩
  rw [← hfin, ← replace_char_nil]
  unfold extractImportsAndInnerClasses
  simp only [finalState_bind, run_eq, get, getThe, MonadStateOf.get, EStateM.get, hp, if_false]
  rfl

theorem mem_innerClassesOf {fqc q : Str} {names : List Str} :
    q ∈ innerClassesOf fqc names ↔ ∃ inner ∈ names, ¬ inner <:+ fqc ∧ q = fqc ++ '$' :: inner := by
  rw [innerClassesOf, List.mem_map]
  constructor
  · rintro ⟨inner, hinner, rfl⟩
    obtain ⟨h1, h2⟩ := List.mem_filter.mp hinner
    exact ⟨inner, h1, fun h => by simp [endswith_iff.mpr h] at h2, rfl⟩
  · rintro ⟨inner, h1, h2, rfl⟩
    exact ⟨inner, List.mem_filter.mpr ⟨h1, by simpa using Bool.eq_false_iff.mpr fun h => h2 (endswith_iff.mp h)⟩,
      rfl⟩

/-! ## The class state of one file -/

/-- A package as `SetFullyQualifiedClass` receives it: identifiers joined by `/`. -/
def IsPackage (comps : List Str) : Prop := comps ≠ [] ∧ ∀ comp ∈ comps, IsIdent comp

instance : DecidablePred IsPackage := fun _ => inferInstanceAs (Decidable (_ ∧ _))

theorem IsPackage.join_ne_nil {comps : List Str} (h : IsPackage comps) : join "/".toList comps ≠ [] := by
  obtain ⟨t, ts, hts⟩ := List.exists_cons_of_ne_nil h.1
  obtain ⟨r, hr⟩ := join_cons_eq "/".toList t ts
  rw [hts, hr]
  exact fun he => (h.2 t (hts ▸ .head _)).1 (List.append_eq_nil.mp he).1

theorem IsPackage.not_mem_join {comps : List Str} (h : IsPackage comps) {x : Char} (hx : isWord x = false)
    (hxs : x ≠ '/') : x ∉ join "/".toList comps := fun hm => by
  rcases mem_join hm with hm | ⟨l, hl, hm⟩
  · exact hxs (by simpa using hm)
  · exact (h.2 l hl).not_mem hx hm

/-- What `JavaToJni` reads of the class state while the file of class `C` in
`package` is handled. -/
structure FileState (package C : Str) (p : JniParams) : Prop where
  fullyQualifiedClass_eq : p.fullyQualifiedClass = 'L' :: package ++ '/' :: C
  package_eq : p.package = package
  imports_dot : ∀ q ∈ p.imports, '.' ∉ q
  innerClasses_eq : ∀ q ∈ p.innerClasses, ∃ N, IsIdent N ∧ q = 'L' :: package ++ '/' :: C ++ '$' :: N

theorem fileState_setFullyQualifiedClass {comps : List Str} (hcomps : IsPackage comps) {C : Str} (hC : IsIdent C) :
    FileState (join "/".toList comps) C (setFullyQualifiedClass (join "/".toList comps ++ '/' :: C) initial) where
  fullyQualifiedClass_eq := rfl
  package_eq := by
    have hslash : ∀ l ∈ comps ++ [C], '/' ∉ l := fun l hl => by
      rcases List.mem_append.mp hl with hl | hl
      · exact (hcomps.2 l hl).not_mem (by decide)
      · rw [List.mem_singleton.mp hl]
        exact hC.not_mem (by decide)
    have hjoin : join ['/'] comps ++ '/' :: C = join ['/'] (comps ++ [C]) := by
      rw [join_append_singleton _ _ hcomps.1]
      simp
    show join ['/'] (split (join ['/'] comps ++ '/' :: C) '/').dropLast = join ['/'] comps
    rw [hjoin, split_join hslash (by simp), List.dropLast_concat]
  imports_dot := by simp [setFullyQualifiedClass, initial]
  innerClasses_eq := by simp [setFullyQualifiedClass, initial]

section
variable {package C : Str} {p : JniParams} (hs : FileState package C p)
include hs

theorem fileState_finalState_extract (hpackage : package ≠ [] ∧ '.' ∉ package) (contents : Str) :
    FileState package C (finalState (extractImportsAndInnerClasses contents) p) := by
  obtain ⟨extra, hextra, heq⟩ := finalState_extractImportsAndInnerClasses contents (hs.package_eq ▸ hpackage.1)
  rw [heq]
  refine ⟨hs.fullyQualifiedClass_eq, hs.package_eq, fun q hq => ?_, fun q hq => ?_⟩
  · simp only [List.mem_append] at hq
    rcases hq with (hq | hq) | hq
    · exact hs.imports_dot q hq
    · obtain ⟨mt, -, rfl⟩ := List.mem_map.mp hq
      simpa using not_mem_replace_char (by decide : '.' ∉ ['/']) _
    · obtain ⟨raw, hraw, rfl⟩ := hextra q hq
      simp [hs.package_eq, hpackage.2, hraw]
  · rcases List.mem_append.mp hq with hq | hq
    · exact hs.innerClasses_eq q hq
    · obtain ⟨inner, hinner, -, rfl⟩ := mem_innerClassesOf.mp hq
      exact ⟨inner, isIdent_of_mem_foundInnerNames hinner, by rw [hs.fullyQualifiedClass_eq]⟩

/-- A declaration `class N` or `interface N` on one line that no earlier match
runs into is recorded as an inner class of the file's class. -/
theorem mem_innerClasses_finalState_extract (hpackage : package ≠ []) {N pre kw ws post : Str} {c : Char}
    (hkw : kw = "class".toList ∨ kw = "interface".toList)
    (hws : ws ≠ [] ∧ ∀ x ∈ ws, isSpace x = true ∧ x ≠ '\n') (hN : IsIdent N) (hc : isWord c = false ∧ c ≠ '\n')
    (hlast : ∀ x ∈ (pre.filter (· != '\n')).getLast?, isWord x = false)
    (hclass : ¬ "class".toList <:+ rstrip (pre.filter (· != '\n')))
    (hinterface : ¬ "interface".toList <:+ rstrip (pre.filter (· != '\n'))) (hNC : ¬ N <:+ C) :
    'L' :: package ++ '/' :: C ++ '$' :: N ∈
      (finalState (extractImportsAndInnerClasses (pre ++ kw ++ ws ++ N ++ c :: post)) p).innerClasses := by
  have hkeep : ∀ {s : Str}, (∀ x ∈ s, isWord x = true ∨ (isSpace x = true ∧ x ≠ '\n')) →
      s.filter (· != '\n') = s := fun h => List.filter_eq_self.mpr fun x hx => by
    rcases h x hx with h | h
    · simpa using fun hn : x = '\n' => absurd (hn ▸ h) (by decide)
    · simpa using h.2
  have hfilter : (pre ++ kw ++ ws ++ N ++ c :: post).filter (· != '\n') =
      pre.filter (· != '\n') ++ (kw ++ ws ++ N ++ c :: post.filter (· != '\n')) := by
    simp only [List.filter_append, List.filter_cons, hkeep fun x hx => .inl (word_of_mem_kw hkw x hx),
      hkeep fun x hx => .inr (hws.2 x hx), hkeep fun x hx => .inl (hN.2 x hx), bne_iff_ne.mpr hc.2, if_true,
      List.append_assoc]
  obtain ⟨extra, -, heq⟩ := finalState_extractImportsAndInnerClasses (pre ++ kw ++ ws ++ N ++ c :: post)
    (hs.package_eq ▸ hpackage)
  rw [heq, hfilter, ← hs.fullyQualifiedClass_eq]
  refine List.mem_append_right _ (mem_innerClassesOf.mpr ⟨N, mem_foundInnerNames hkw
    ⟨hws.1, fun x hx => (hws.2 x hx).1⟩ hN hc.1 hlast hclass hinterface, fun h => hNC ?_, rfl⟩)
  rw [hs.fullyQualifiedClass_eq] at h
  exact suffix_of_suffix_append_cons (hN.not_mem (by decide)) (show N <:+ ('L' :: package) ++ '/' :: C from h)

/-- The names the first loop of `JavaToJni` tries. -/
theorem FileState.mem_candidates {y : Str} (hy : y ∈ objectParamList ++ [p.fullyQualifiedClass] ++ p.innerClasses) :
    y ∈ objectParamList ∨ y = 'L' :: package ++ '/' :: C ∨
      ∃ N, IsIdent N ∧ y = 'L' :: package ++ '/' :: C ++ '$' :: N := by
  rcases List.mem_append.mp hy with hy | hy
  · rcases List.mem_append.mp hy with hy | hy
    · exact .inl hy
    · exact .inr (.inl (List.mem_singleton.mp hy ▸ hs.fullyQualifiedClass_eq))
  · exact .inr (.inr (hs.innerClasses_eq y hy))

end

/-! ## Resolution -/

theorem matchesQualified_iff {param q : Str} : matchesQualified param q = true ↔
    '/' :: param <:+ q ∨ '$' :: replace param ['.'] ['$'] <:+ q ∨ q = 'L' :: param := by
  simp [matchesQualified, or_assoc]

/-- A name with no array suffix and no type arguments is resolved as it is. -/
theorem javaToJni_eq_resolveElement (p : JniParams) (implicitImports : List Str) {param : Str}
    (hbracket : ']' ∉ param) (hlt : '<' ∉ param) :
    javaToJni p implicitImports param = resolveElement p implicitImports param := by
  rw [javaToJni_of_not_array p _ fun ⟨u, hu⟩ => hbracket (hu ▸ by simp), takeWhile_of_not_mem hlt]

theorem find?_eq_some_of_unique {α : Type} {p : α → Bool} {l : List α} {x : α} (hx : x ∈ l) (hpx : p x = true)
    (hu : ∀ y ∈ l, p y = true → y = x) : l.find? p = some x := by
  induction l with
  | nil => cases hx
  | cons y l ih =>
    by_cases hy : p y = true
    · rw [List.find?_cons_of_pos _ hy, hu y (.head _) hy]
    · rw [List.find?_cons_of_neg _ hy]
      exact ih ((List.mem_cons.mp hx).resolve_left fun h => hy (h ▸ hpx)) fun z hz => hu z (.tail _ hz)

theorem objectParamList_chars : ∀ q ∈ objectParamList, '/' ∈ q ∧ '.' ∉ q ∧ '$' ∉ q := by decide

theorem podParamMap_dot : ∀ e ∈ podParamMap, '.' ∉ e.1 := by decide

theorem not_mem_class {package C : Str} {x : Char} (hxp : x ∉ package) (hx : isWord x = false) (hxs : x ≠ '/')
    (hC : IsIdent C) : x ∉ 'L' :: package ++ '/' :: C := fun hm => by
  simp only [List.mem_cons, List.mem_append] at hm
  rcases hm with (rfl | hm) | rfl | hm
  · exact absurd hx (by decide)
  · exact hxp hm
  · exact hxs rfl
  · exact hC.not_mem hx hm

section
variable {package C N : Str} {p : JniParams} (implicitImports : List Str)

theorem resolveElement_inner (hs : FileState package C p) (hpackage : '$' ∉ package) (hC : IsIdent C)
    (hN : IsIdent N) (hpod : podParamMap.lookup N = none) (hlang : ∀ q ∈ objectParamList, ¬ '/' :: N <:+ q)
    (hNC : N ≠ C) (hmem : 'L' :: package ++ '/' :: C ++ '$' :: N ∈ p.innerClasses) :
    resolveElement p implicitImports N = .ok ('L' :: package ++ '/' :: C ++ '$' :: N ++ ";".toList) := by
  have hslash : '/' ∉ N := hN.not_mem (by decide)
  have hdollar : '$' ∉ N := hN.not_mem (by decide)
  have hrepl : replace N ['.'] ['$'] = N := replace_char_of_not_mem (hN.not_mem (by decide))
  have hL : ∀ {y}, '/' ∈ y → y ≠ 'L' :: N := fun h he => hslash (by simpa [he] using h)
  have hfind : (objectParamList ++ [p.fullyQualifiedClass] ++ p.innerClasses).find? (matchesQualified N) =
      some ('L' :: package ++ '/' :: C ++ '$' :: N) := by
    refine find?_eq_some_of_unique (List.mem_append_right _ hmem)
      (matchesQualified_iff.mpr (.inr (.inl (by rw [hrepl]; exact List.suffix_append _ _)))) fun y hy hmy => ?_
    rw [matchesQualified_iff, hrepl] at hmy
    rcases hs.mem_candidates hy with hy | rfl | ⟨N', hN', rfl⟩
    · obtain ⟨h1, -, h3⟩ := objectParamList_chars y hy
      rcases hmy with h | h | h
      · exact absurd h (hlang y hy)
      · exact absurd (h.subset (.head _)) h3
      · exact absurd h (hL h1)
    · rcases hmy with h | h | h
      · exact absurd (eq_of_cons_suffix_append_cons hslash (hC.not_mem (by decide))
          (show '/' :: N <:+ ('L' :: package) ++ '/' :: C from h)) hNC
      · exact absurd (h.subset (.head _)) (not_mem_class hpackage (by decide) (by decide) hC)
      · exact absurd h (hL (by simp))
    · rcases hmy with h | h | h
      · have := eq_of_cons_suffix_append_cons hslash
          (by simp [hC.not_mem (by decide : isWord '/' = false), hN'.not_mem (by decide : isWord '/' = false)])
          (show '/' :: N <:+ ('L' :: package) ++ '/' :: (C ++ '$' :: N') by simpa using h)
        exact absurd (this ▸ by simp) hdollar
      · rw [eq_of_cons_suffix_append_cons hdollar (hN'.not_mem (by decide))
          (show '$' :: N <:+ ('L' :: package ++ '/' :: C) ++ '$' :: N' by simpa using h)]
      · exact absurd h (hL (by simp))
  unfold resolveElement
  rw [hpod]
  simp only [if_neg hslash, hfind]
  rfl

theorem resolveElement_qualified (hs : FileState package C p) (hpackage : '.' ∉ package ∧ '$' ∉ package)
    (hC : IsIdent C) (hN : IsIdent N) :
    resolveElement p implicitImports (C ++ '.' :: N) =
      match p.imports.find? (fun q => endswith q ('/' :: C)) with
      | some q => .ok (q ++ '$' :: N ++ ";".toList)
      | none => .error (.syntaxError ("Inner class (".toList ++ C ++ '.' :: N ++
          ") can not be used directly by JNI. Please import the outer class, probably:\nimport ".toList ++
          replace package "/".toList ".".toList ++ '.' :: C ++ ";".toList)) := by
  have hCdot : '.' ∉ C := hC.not_mem (by decide)
  have hNdot : '.' ∉ N := hN.not_mem (by decide)
  have hdot : '.' ∈ C ++ '.' :: N := by simp
  have hpod : podParamMap.lookup (C ++ '.' :: N) = none :=
    List.lookup_eq_none_iff.mpr fun e he => bne_iff_ne.mpr fun h => podParamMap_dot e he (h ▸ hdot)
  have hslash : '/' ∉ C ++ '.' :: N := by
    simp [hC.not_mem (by decide : isWord '/' = false), hN.not_mem (by decide : isWord '/' = false)]
  have hrepl : replace (C ++ '.' :: N) ['.'] ['$'] = C ++ '$' :: N := by
    rw [replace_char_append, replace_char_of_not_mem hCdot, show '.' :: N = ['.'] ++ N from rfl,
      replace_char_append, replace_char_of_not_mem hNdot]
    rfl
  have hclass := not_mem_class hpackage.1 (by decide) (by decide) hC
  have hfind : (objectParamList ++ [p.fullyQualifiedClass] ++ p.innerClasses).find?
      (matchesQualified (C ++ '.' :: N)) = none := by
    refine List.find?_eq_none.mpr fun y hy hmy => ?_
    rw [matchesQualified_iff, hrepl] at hmy
    rcases hs.mem_candidates hy with hy | rfl | ⟨N', hN', rfl⟩
    · obtain ⟨-, h2, h3⟩ := objectParamList_chars y hy
      rcases hmy with h | h | rfl
      · exact h2 (h.subset (by simp))
      · exact h3 (h.subset (.head _))
      · exact h2 (by simp)
    · rcases hmy with h | h | h
      · exact hclass (h.subset (by simp))
      · exact not_mem_class hpackage.2 (by decide) (by decide) hC (h.subset (.head _))
      · exact hclass (h ▸ by simp)
    · have hN'dot : '.' ∉ N' := hN'.not_mem (by decide)
      rcases hmy with h | h | h
      · simpa [hN'dot] using hclass (by simpa [hN'dot] using h.subset (by simp : '.' ∈ '/' :: (C ++ '.' :: N)))
      · obtain ⟨t, ht⟩ := h
        have := (append_cons_eq_append_cons (hN.not_mem (by decide)) (hN'.not_mem (by decide))
          (show (t ++ '$' :: C) ++ '$' :: N = ('L' :: package ++ '/' :: C) ++ '$' :: N' by simpa using ht)).1
        exact not_mem_class hpackage.2 (by decide) (by decide) hC (this ▸ by simp)
      · exact hclass (by simpa [hN'dot] using congrArg (List.elem '.') h)
  have himports : p.imports.find? (fun q => endswith q ('/' :: (C ++ '.' :: N))) = none :=
    List.find?_eq_none.mpr fun q hq h => hs.imports_dot q hq ((endswith_iff.mp h).subset (by simp))
  have hsplit : split (C ++ '.' :: N) '.' = [C, N] := by
    rw [show C ++ '.' :: N = join ['.'] [C, N] by simp [join_cons_cons, join_singleton],
      split_join (by simp [hCdot, hNdot]) (by simp)]
  unfold resolveElement
  rw [hpod]
  simp only [if_neg hslash, hfind, himports, if_pos hdot, hsplit]
  simp only [List.dropLast, join_singleton, show "/".toList = ['/'] from rfl,
    replace_char_of_not_mem (hC.not_mem (by decide) : '/' ∉ C), hs.package_eq, List.append_assoc]
  rfl

end

/-! ## One file -/

/-- After `SetFullyQualifiedClass(P/C)` and `ExtractImportsAndInnerClasses` on a
fresh state, a member type declared as `class N` or `interface N`, with no
earlier match running into it, resolves to `L<P>/C$N;` whatever its nesting, and
`C.N` resolves only through an import of `C`. -/
theorem javaToJni_after_extract_inner {comps : List Str} (hcomps : IsPackage comps)
    {C N pre kw ws post : Str} {c : Char} (hC : IsIdent C) (hN : IsIdent N)
    (hkw : kw = "class".toList ∨ kw = "interface".toList)
    (hws : ws ≠ [] ∧ ∀ x ∈ ws, isSpace x = true ∧ x ≠ '\n') (hc : isWord c = false ∧ c ≠ '\n')
    (hlast : ∀ x ∈ (pre.filter (· != '\n')).getLast?, isWord x = false)
    (hclass : ¬ "class".toList <:+ rstrip (pre.filter (· != '\n')))
    (hinterface : ¬ "interface".toList <:+ rstrip (pre.filter (· != '\n')))
    (hNC : ¬ N <:+ C) (hpod : podParamMap.lookup N = none) (hlang : ∀ q ∈ objectParamList, ¬ '/' :: N <:+ q)
    (implicitImports : List Str) :
    let p := finalState (extractImportsAndInnerClasses (pre ++ kw ++ ws ++ N ++ c :: post))
      (setFullyQualifiedClass (join "/".toList comps ++ '/' :: C) initial)
    javaToJni p implicitImports N = .ok ('L' :: join "/".toList comps ++ '/' :: C ++ '$' :: N ++ ";".toList) ∧
    javaToJni p implicitImports (C ++ '.' :: N) =
      match p.imports.find? (fun q => endswith q ('/' :: C)) with
      | some q => .ok (q ++ '$' :: N ++ ";".toList)
      | none => .error (.syntaxError ("Inner class (".toList ++ C ++ '.' :: N ++
          ") can not be used directly by JNI. Please import the outer class, probably:\nimport ".toList ++
          join ".".toList comps ++ '.' :: C ++ ";".toList)) := by
  intro p
  have hs0 := fileState_setFullyQualifiedClass hcomps hC
  have hdot := hcomps.not_mem_join (by decide : isWord '.' = false) (by decide)
  have hdollar := hcomps.not_mem_join (by decide : isWord '$' = false) (by decide)
  have hs : FileState (join "/".toList comps) C p := fileState_finalState_extract hs0 ⟨hcomps.join_ne_nil, hdot⟩ _
  have hmem : 'L' :: join "/".toList comps ++ '/' :: C ++ '$' :: N ∈ p.innerClasses :=
    mem_innerClasses_finalState_extract hs0 hcomps.join_ne_nil hkw hws hN hc hlast hclass hinterface hNC
  refine ⟨?_, ?_⟩
  · rw [javaToJni_eq_resolveElement _ _ (hN.not_mem (by decide)) (hN.not_mem (by decide))]
    exact resolveElement_inner implicitImports hs hdollar hC hN hpod hlang
      (fun h => hNC (h ▸ List.suffix_refl _)) hmem
  · have hCN : ']' ∉ C ++ '.' :: N ∧ '<' ∉ C ++ '.' :: N := by
      simp [hC.not_mem (by decide : isWord ']' = false), hN.not_mem (by decide : isWord ']' = false),
        hC.not_mem (by decide : isWord '<' = false), hN.not_mem (by decide : isWord '<' = false)]
    rw [javaToJni_eq_resolveElement _ _ hCN.1 hCN.2, resolveElement_qualified implicitImports hs
      ⟨hdot, hdollar⟩ hC hN, show "/".toList = ['/'] from rfl,
      replace_char_join _ fun l hl => (hcomps.2 l hl).not_mem (by decide)]

/-- `class Foo { class Bar {} }` in package `org.chromium.foo`. -/
theorem javaToJni_after_extract_inner_bar :
    let p := finalState (extractImportsAndInnerClasses
        ("class Foo \x7b\n  ".toList ++ "class".toList ++ " ".toList ++ "Bar".toList ++ ' ' :: "\x7b\x7d\n\x7d\n".toList))
      (setFullyQualifiedClass (join "/".toList ["org".toList, "chromium".toList, "foo".toList] ++ '/' :: "Foo".toList)
        initial)
    javaToJni p [] "Bar".toList = .ok ('L' :: join "/".toList ["org".toList, "chromium".toList, "foo".toList] ++
      '/' :: "Foo".toList ++ '$' :: "Bar".toList ++ ";".toList) ∧
    javaToJni p [] ("Foo".toList ++ '.' :: "Bar".toList) =
      match p.imports.find? (fun q => endswith q ('/' :: "Foo".toList)) with
      | some q => .ok (q ++ '$' :: "Bar".toList ++ ";".toList)
      | none => .error (.syntaxError ("Inner class (".toList ++ "Foo".toList ++ '.' :: "Bar".toList ++
          ") can not be used directly by JNI. Please import the outer class, probably:\nimport ".toList ++
          join ".".toList ["org".toList, "chromium".toList, "foo".toList] ++ '.' :: "Foo".toList ++ ";".toList)) :=
  javaToJni_after_extract_inner (by decide) (by decide) (by decide) (.inl rfl) ⟨by decide, by decide⟩
    ⟨by decide, by decide⟩ (by decide) (by decide) (by decide) (by decide) (by decide) (by decide) []

/-- In `class Foo { class Bar { class Baz {} } enum Qux { A } }` of package
`org.chromium.foo`, `Baz` resolves as a member of `Foo`, the enum `Qux` as a
class of the package, and `Foo.Bar` raises. -/
theorem javaToJni_inner_classes_flattened :
    let p := finalState (extractImportsAndInnerClasses
        "class Foo \x7b\n  class Bar \x7b\n    class Baz \x7b\x7d\n  \x7d\n  enum Qux \x7b A \x7d\n\x7d\n".toList)
      (setFullyQualifiedClass "org/chromium/foo/Foo".toList initial)
    javaToJni p [] "Baz".toList = .ok "Lorg/chromium/foo/Foo$Baz;".toList ∧
    javaToJni p [] "Qux".toList = .ok "Lorg/chromium/foo/Qux;".toList ∧
    javaToJni p [] "Foo.Bar".toList = .error (.syntaxError ("Inner class (Foo.Bar) can not be used directly " ++
      "by JNI. Please import the outer class, probably:\nimport org.chromium.foo.Foo;").toList) :=
  ⟨rfl, rfl, rfl⟩

end JniParams

end JniGenerator
