import JniGenerator.PyString
import Mathlib.Data.List.Forall2

/-! The exceptions of the generator, `Param`, and `JniParams.Parse`, which
splits a Java formal parameter list into `Param`s. -/

namespace JniGenerator

/-- The exceptions the generator raises or lets escape: `ParseError`,
`SyntaxError`, `RuntimeError`, a failed `assert`, an `IndexError`, the
`ValueError` of `str.index` and the `AttributeError` of an attribute never set. -/
inductive Error where
  | parseError (description : Str) (contextLines : List Str)
  | syntaxError (msg : Str)
  | runtimeError (msg : Str)
  | assertionError
  | indexError
  | valueError
  | attributeError
  deriving DecidableEq, Repr

instance instDecidableEqExcept {ε α : Type} [DecidableEq ε] [DecidableEq α] :
    DecidableEq (Except ε α)
  | .ok a, .ok b => decidable_of_iff (a = b) ⟨congrArg _, fun h => by injection h⟩
  | .error a, .error b => decidable_of_iff (a = b) ⟨congrArg _, fun h => by injection h⟩
  | .ok _, .error _ => isFalse fun h => by cases h
  | .error _, .ok _ => isFalse fun h => by cases h

@[simp] theorem except_pure_eq_ok {ε α : Type} (a : α) : (pure a : Except ε α) = .ok a := rfl

@[simp] theorem except_bind_eq_ok {ε α β : Type} (x : Except ε α) (f : α → Except ε β) (b : β) :
    x >>= f = .ok b ↔ ∃ a, x = .ok a ∧ f a = .ok b := by
  cases x <;> simp [bind, Except.bind]

@[simp] theorem except_map_eq_ok {ε α β : Type} (x : Except ε α) (f : α → β) (b : β) :
    f <$> x = .ok b ↔ ∃ a, x = .ok a ∧ f a = b := by
  cases x <;> simp [Functor.map, Except.map]

theorem mapM_eq_ok_iff {α β : Type} {f : α → Except Error β} {l : List α} {r : List β} :
    l.mapM f = .ok r ↔ List.Forall₂ (fun a b => f a = .ok b) l r := by
  induction l generalizing r with
  | nil => cases r <;> simp [-List.mapM, List.forall₂_nil_left_iff]
  | cons a l ih => cases r <;> simp [-List.mapM, ih, List.forall₂_nil_right_iff]

theorem forall_mem_of_forall₂ {α β : Type} {R : α → β → Prop} {P : β → Prop} :
    ∀ {l₁ : List α} {l₂ : List β}, List.Forall₂ R l₁ l₂ → (∀ a ∈ l₁, ∀ b, R a b → P b) → ∀ b ∈ l₂, P b
  | _, _, .nil, _ => nofun
  | _, _, .cons hab h, hP => List.forall_mem_cons.2
      ⟨hP _ (.head _) _ hab, forall_mem_of_forall₂ h fun a ha => hP a (.tail _ ha)⟩

/-- Describes a param for a method, either java or native. -/
structure Param where
  datatype : Str
  name : Str
  deriving DecidableEq, Repr

namespace JniParams

/-- `while items[0].startswith('@'): del items[0]` -/
def dropAnnotations : List Str → Except Error (List Str)
  | [] => .error .indexError
  | item :: items => if startswith item "@".toList then dropAnnotations items else .ok (item :: items)

/-- One iteration of the loop of `Parse`, for the `index`-th parameter text. -/
def parseParam (index : Nat) (p : Str) : Except Error Param := do
  let items ← dropAnnotations (split p ' ')
  -- `if 'final' in items: items.remove('final')`
  match items.erase "final".toList with
  | [] => .error .indexError
  | [datatype] => pure ⟨datatype, 'p' :: (toString index).toList⟩
  | datatype :: name :: _ => pure ⟨datatype, name⟩

def parseAux : Nat → List Str → Except Error (List Param)
  | _, [] => pure []
  | index, p :: ps => do
    let param ← parseParam index (strip p)
    let rest ← parseAux (index + 1) ps
    pure (param :: rest)

/-- `JniParams.Parse`: parses the params into a list of `Param` objects. -/
def parse (params : Str) : Except Error (List Param) :=
  if params = [] then pure [] else parseAux 0 (split params ',')

/-! ## Parameter lists in the layout `Parse` reads -/

/-- A token of a parameter list: nonempty, with no whitespace and no comma. -/
def IsToken (t : Str) : Prop := t ≠ [] ∧ ∀ c ∈ t, isSpace c = false ∧ c ≠ ','

/-- A formal parameter as `Parse` reads it: argument-less annotations, then
optionally `final`, then the type and the name. -/
structure JavaParam where
  annotations : List Str
  isFinal : Bool
  datatype : Str
  name : Str
  annotations_token : ∀ a ∈ annotations, IsToken a ∧ startswith a "@".toList = true
  datatype_token : IsToken datatype
  datatype_not_annotation : startswith datatype "@".toList = false
  datatype_ne_final : datatype ≠ "final".toList
  name_token : IsToken name
  name_ne_final : name ≠ "final".toList

/-- A parameter with the whitespace around it in the list. -/
structure ParamText where
  leading : Str
  param : JavaParam
  trailing : Str
  leading_space : ∀ c ∈ leading, isSpace c = true
  trailing_space : ∀ c ∈ trailing, isSpace c = true

namespace JavaParam

def modifiers (d : JavaParam) : List Str := if d.isFinal then ["final".toList] else []

def tokens (d : JavaParam) : List Str := d.annotations ++ d.modifiers ++ [d.datatype, d.name]

/-- The parameter with its tokens one space apart. -/
def render (d : JavaParam) : Str := join " ".toList d.tokens

end JavaParam

def ParamText.render (t : ParamText) : Str := t.leading ++ t.param.render ++ t.trailing

/-- A parameter list: the parameters with their whitespace, separated by commas. -/
def renderParams (ps : List ParamText) : Str := join ",".toList (ps.map ParamText.render)


instance : DecidablePred IsToken := fun t =>
  inferInstanceAs (Decidable (t ≠ [] ∧ ∀ c ∈ t, isSpace c = false ∧ c ≠ ','))

theorem IsToken.head? {t : Str} (h : IsToken t) : ∀ c ∈ t.head?, isSpace c = false :=
  fun c hc => (h.2 c (List.mem_of_mem_head? hc)).1

theorem IsToken.getLast? {t : Str} (h : IsToken t) : ∀ c ∈ t.getLast?, isSpace c = false :=
  fun c hc => (h.2 c (List.mem_of_mem_getLast? hc)).1

theorem dropAnnotations_append {anns rest : List Str}
    (h : ∀ a ∈ anns, startswith a "@".toList = true) :
    dropAnnotations (anns ++ rest) = dropAnnotations rest := by
  induction anns with
  | nil => rfl
  | cons a anns ih =>
    rw [List.cons_append, dropAnnotations, if_pos (h a (.head _))]
    exact ih fun b hb => h b (.tail _ hb)

namespace JavaParam

variable (d : JavaParam)

theorem isToken_of_mem_tokens {t : Str} (ht : t ∈ d.tokens) : IsToken t := by
  simp only [tokens, modifiers, List.mem_append, List.mem_cons, List.mem_singleton] at ht
  rcases ht with (ha | hf) | rfl | rfl | h
  · exact (d.annotations_token t ha).1
  · split at hf <;> simp_all; decide
  · exact d.datatype_token
  · exact d.name_token
  · simp at h

theorem split_render : split d.render ' ' = d.tokens :=
  split_join (fun t ht hc => by simpa [isSpace] using ((d.isToken_of_mem_tokens ht).2 ' ' hc).1)
    (by simp [tokens])

theorem dropAnnotations_tokens :
    dropAnnotations d.tokens = .ok (d.modifiers ++ [d.datatype, d.name]) := by
  rw [tokens, List.append_assoc, dropAnnotations_append fun a ha => (d.annotations_token a ha).2]
  have h1 := d.datatype_not_annotation
  cases h : d.isFinal <;> simp_all [modifiers, dropAnnotations]

theorem erase_final : (d.modifiers ++ [d.datatype, d.name]).erase "final".toList = [d.datatype, d.name] := by
  have h1 := d.datatype_ne_final
  have h2 := d.name_ne_final
  cases h : d.isFinal <;> simp_all [modifiers, List.erase_cons]

theorem parseParam_render (i : Nat) : parseParam i d.render = .ok ⟨d.datatype, d.name⟩ := by
  simp only [parseParam, split_render, dropAnnotations_tokens, bind, Except.bind, erase_final]
  rfl

/-- The rendering starts with its first token. -/
theorem render_eq_first : ∃ t r, IsToken t ∧ d.render = t ++ r := by
  obtain ⟨t, ts, hts⟩ : ∃ t ts, d.tokens = t :: ts := List.exists_cons_of_ne_nil (by simp [tokens])
  obtain ⟨r, hr⟩ := join_cons_eq " ".toList t ts
  exact ⟨t, r, d.isToken_of_mem_tokens (by simp [hts]), by rw [render, hts, hr]⟩

theorem render_head? : ∀ c ∈ d.render.head?, isSpace c = false := by
  obtain ⟨t, r, ht, hr⟩ := d.render_eq_first
  rw [hr, List.head?_append_of_ne_nil _ ht.1]
  exact ht.head?

theorem render_ne_nil : d.render ≠ [] := by
  obtain ⟨t, r, ht, hr⟩ := d.render_eq_first
  rw [hr]
  exact List.append_ne_nil_of_left_ne_nil ht.1 r

theorem render_getLast? : ∀ c ∈ d.render.getLast?, isSpace c = false := by
  obtain ⟨r, hr⟩ := join_append_singleton_eq " ".toList d.name (d.annotations ++ d.modifiers ++ [d.datatype])
  rw [render, tokens, show d.annotations ++ d.modifiers ++ [d.datatype, d.name] =
    d.annotations ++ d.modifiers ++ [d.datatype] ++ [d.name] by simp, hr,
    List.getLast?_append_of_ne_nil _ d.name_token.1]
  exact d.name_token.getLast?

end JavaParam

theorem ParamText.strip_render (t : ParamText) : strip t.render = t.param.render :=
  strip_spaces_around t.leading_space t.trailing_space t.param.render_head? t.param.render_getLast?

theorem parseAux_render (i : Nat) (ps : List ParamText) :
    parseAux i (ps.map ParamText.render) = .ok (ps.map fun t => ⟨t.param.datatype, t.param.name⟩) := by
  induction ps generalizing i with
  | nil => rfl
  | cons t ps ih => simp [parseAux, ParamText.strip_render, JavaParam.parseParam_render, ih]

theorem ParamText.comma_not_mem_render (t : ParamText) : ',' ∉ t.render := by
  intro h
  simp only [ParamText.render, List.mem_append] at h
  rcases h with (h | h) | h
  · simpa [isSpace] using t.leading_space ',' h
  · rcases mem_join h with h | ⟨l, hl, h⟩
    · simp at h
    · exact ((t.param.isToken_of_mem_tokens hl).2 ',' h).2 rfl
  · simpa [isSpace] using t.trailing_space ',' h

theorem ParamText.render_ne_nil (t : ParamText) : t.render ≠ [] := by
  simp [ParamText.render, t.param.render_ne_nil]

theorem split_renderParams {ps : List ParamText} (hps : ps ≠ []) :
    split (renderParams ps) ',' = ps.map ParamText.render :=
  split_join (by simpa using fun t _ => t.comma_not_mem_render) (by simpa using hps)

theorem parse_renderParams (ps : List ParamText) :
    parse (renderParams ps) = .ok (ps.map fun t => ⟨t.param.datatype, t.param.name⟩) := by
  cases ps with
  | nil => rfl
  | cons t ps =>
    obtain ⟨r, hr⟩ := join_cons_eq ",".toList t.render (ps.map ParamText.render)
    have hne : renderParams (t :: ps) ≠ [] := by
      rw [renderParams, List.map_cons, hr]
      exact List.append_ne_nil_of_left_ne_nil t.render_ne_nil r
    rw [parse, if_neg hne, split_renderParams (List.cons_ne_nil t ps)]
    exact parseAux_render 0 (t :: ps)

/-- A parameter type as `javap` lists it: a token that is not an annotation
or `final`. -/
def IsJavaPType (t : Str) : Prop := IsToken t ∧ startswith t "@".toList = false ∧ t ≠ "final".toList

instance : DecidablePred IsJavaPType := fun _ => inferInstanceAs (Decidable (_ ∧ _ ∧ _))

/-- A type alone is named after its index. -/
theorem parseParam_type {t : Str} (ht : IsJavaPType t) (i : Nat) :
    parseParam i t = .ok ⟨t, 'p' :: (toString i).toList⟩ := by
  have hsplit : split t ' ' = [t] := by
    have h := split_join (c := ' ') (List.forall_mem_singleton.2 fun h => by
      simpa [isSpace] using (ht.1.2 ' ' h).1) (List.cons_ne_nil t [])
    rwa [join_singleton] at h
  have herase : [t].erase "final".toList = [t] := List.erase_of_not_mem (by simpa using Ne.symm ht.2.2)
  simp only [parseParam, hsplit, dropAnnotations, ht.2.1, Bool.false_eq_true, if_false, bind,
    Except.bind, herase]
  rfl

theorem IsJavaPType.strip {t : Str} (ht : IsJavaPType t) (pad : Str) (hpad : ∀ c ∈ pad, isSpace c = true) :
    strip (pad ++ t) = t := by
  simpa using strip_spaces_around (b := []) hpad (by simp) ht.1.head? ht.1.getLast?

/-- Slashing a dotted type keeps it a type `Parse` names by its index. -/
theorem IsJavaPType.replace_dot {t : Str} (ht : IsJavaPType t) :
    IsJavaPType (replace t ".".toList "/".toList) := by
  have hmap := replace_char_char '.' '/' t
  simp only [show ".".toList = ['.'] from rfl, show "/".toList = ['/'] from rfl] at hmap ⊢
  obtain ⟨⟨hne, hchars⟩, hat, hfinal⟩ := ht
  refine ⟨⟨by simpa [hmap] using hne, fun x hx => ?_⟩, ?_, fun h => ?_⟩
  · rw [hmap, List.mem_map] at hx
    obtain ⟨y, hy, rfl⟩ := hx
    split
    · decide
    · exact hchars y hy
  · obtain ⟨y, t', rfl⟩ := List.exists_cons_of_ne_nil hne
    have hy : y ≠ '@' := fun h => by simp [h, startswith, List.isPrefixOf] at hat
    rw [hmap, List.map_cons]
    split <;> simp_all [startswith, List.isPrefixOf]
  · by_cases hdot : '.' ∈ t
    · have : '/' ∈ replace t ['.'] ['/'] := by rw [hmap]; exact List.mem_map.2 ⟨'.', hdot, rfl⟩
      rw [h] at this
      exact absurd this (by decide)
    · exact hfinal (by rwa [replace_char_of_not_mem hdot] at h)

theorem parseAux_types (i : Nat) : ∀ {types : List Str}, (∀ t ∈ types, IsJavaPType t) →
    parseAux i (types.map (" ".toList ++ ·)) =
      .ok (types.mapIdx fun j t => ⟨t, 'p' :: (toString (j + i)).toList⟩)
  | [], _ => rfl
  | t :: ts, h => by
    have ih := parseAux_types (i + 1) fun u hu => h u (.tail _ hu)
    simp only [List.map_cons, parseAux, (h t (.head _)).strip " ".toList (by decide), parseParam_type (h t (.head _)),
      ih, List.mapIdx_cons, Nat.zero_add, Nat.add_assoc, Nat.add_comm 1 i]
    rfl

/-- `javap` lists the parameter types `, ` apart; `Parse` names them `p0`, `p1`, ... -/
theorem parse_join_types {types : List Str} (h : ∀ t ∈ types, IsJavaPType t) :
    parse (join ", ".toList types) = .ok (types.mapIdx fun j t => ⟨t, 'p' :: (toString j).toList⟩) := by
  cases types with
  | nil => rfl
  | cons t ts =>
    have hcomma : ∀ l ∈ t :: ts.map (" ".toList ++ ·), ',' ∉ l := by
      simp only [List.mem_cons, List.mem_map]
      rintro l (rfl | ⟨u, hu, rfl⟩) hc
      · exact ((h l (.head _)).1.2 ',' hc).2 rfl
      · rcases List.mem_append.1 hc with hc | hc
        · exact absurd hc (by decide)
        · exact ((h u (.tail _ hu)).1.2 ',' hc).2 rfl
    obtain ⟨r, hr⟩ := join_cons_eq ", ".toList t ts
    have hne : join ", ".toList (t :: ts) ≠ [] := by
      rw [hr]; exact List.append_ne_nil_of_left_ne_nil (h t (.head _)).1.1 r
    rw [parse, if_neg hne, show ", ".toList = ',' :: " ".toList from rfl, join_cons_sep,
      split_join hcomma (List.cons_ne_nil _ _)]
    have hstrip : strip t = t := by simpa using (h t (.head _)).strip [] (by simp)
    simp only [parseAux, hstrip, parseParam_type (h t (.head _)),
      parseAux_types 1 fun u hu => h u (.tail _ hu), List.mapIdx_cons]
    rfl

/-- A comma inside a generic argument list splits one parameter into two. -/
theorem parse_splits_generic_arguments :
    parse "Map<K, V> m".toList = .ok [⟨"Map<K".toList, "p0".toList⟩, ⟨"V>".toList, "m".toList⟩] := by
  decide

end JniParams

end JniGenerator
