/-
  BridgeCall/Proofs/Files/Path.lean
  =================================
  **The elements of a path.**  Splitting a path at its slashes and joining the
  pieces are inverse to each other as long as no piece has a slash.  A text
  without a slash ends a path exactly when it ends its last element, so what a
  path ends in can be read off the name of the file it leads to.
-/
import BridgeCall.Files.Path
import BridgeCall.Proofs.Machine.NativeSymbols

namespace BridgeCall.Path

/-- A name that can stand in a directory. -/
def IsProper (name : Bytes) : Prop :=
  name ≠ [] ∧ name ≠ ("." : Bytes) ∧ name ≠ (".." : Bytes) ∧ 0x2f ∉ name

instance (name : Bytes) : Decidable (IsProper name) :=
  inferInstanceAs (Decidable (_ ∧ _ ∧ _ ∧ _))

/-! ### Splitting and joining -/

theorem elements_ne_nil (path : Bytes) : elements path ≠ [] := by
  cases path with
  | nil => simp [elements, Bytes.splitOn]
  | cons b bs =>
    obtain ⟨part, parts, -, hcons⟩ := splitOn_cons 0x2f b bs
    rw [elements, hcons]
    split <;> simp

theorem elements_eq_singleton {name : Bytes} (h : 0x2f ∉ name) : elements name = [name] := by
  induction name with
  | nil => rfl
  | cons b bs ih =>
    have hb : b ≠ 0x2f := fun heq => h (by simp [heq])
    have hbs := ih fun hmem => h (List.mem_cons_of_mem _ hmem)
    rw [elements] at hbs ⊢
    rw [Bytes.splitOn, if_neg hb, hbs]

theorem elements_append_slash (a b : Bytes) :
    elements (a ++ 0x2f :: b) = elements a ++ elements b := by
  induction a with
  | nil => rfl
  | cons c cs ih =>
    obtain ⟨part, parts, hparts, hcons⟩ := splitOn_cons 0x2f c cs
    obtain ⟨part', parts', hparts', hcons'⟩ := splitOn_cons 0x2f c (cs ++ 0x2f :: b)
    simp only [elements] at ih ⊢
    rw [hparts, hparts'] at ih
    obtain ⟨rfl, rfl⟩ : part' = part ∧ parts' = parts ++ Bytes.splitOn 0x2f b := by simpa using ih
    rw [List.cons_append, hcons', hcons]
    split <;> simp

theorem slash_not_mem_of_mem_elements {path e : Bytes} (h : e ∈ elements path) : 0x2f ∉ e := by
  induction path generalizing e with
  | nil =>
    obtain rfl : e = [] := by simpa [elements, Bytes.splitOn] using h
    simp
  | cons c cs ih =>
    obtain ⟨part, parts, hparts, hcons⟩ := splitOn_cons 0x2f c cs
    simp only [elements] at ih h
    rw [hparts] at ih
    rw [hcons] at h
    split at h
    · rcases List.mem_cons.mp h with rfl | h
      · simp
      · exact ih h
    · rename_i hc
      rcases List.mem_cons.mp h with rfl | h
      · intro hmem
        rcases List.mem_cons.mp hmem with heq | hmem
        · exact hc heq.symm
        · exact ih (List.mem_cons_self) hmem
      · exact ih (List.mem_cons_of_mem _ h)

theorem elements_join {es : List Bytes} (hne : es ≠ []) (h : ∀ e ∈ es, 0x2f ∉ e) :
    elements (Bytes.join [0x2f] es) = es := by
  induction es with
  | nil => exact absurd rfl hne
  | cons e es ih =>
    have he := elements_eq_singleton (h e List.mem_cons_self)
    cases es with
    | nil => exact he
    | cons e' es =>
      have hrest := ih (List.cons_ne_nil _ _) fun x hx => h x (List.mem_cons_of_mem _ hx)
      rw [Bytes.join, List.append_assoc, List.singleton_append, elements_append_slash, he, hrest,
        List.singleton_append]

theorem join_eq_nil {es : List Bytes} (h : Bytes.join [0x2f] es = []) : es = [] ∨ es = [[]] := by
  match es, h with
  | [], _ => exact .inl rfl
  | [e], h => exact .inr (by rw [show e = [] from h])
  | e :: e' :: es, h => simp [Bytes.join] at h

/-! ### Simplifying -/

theorem simplify_cons (absolute : Bool) (kept : List Bytes) (e : Bytes) (es : List Bytes) :
    simplify absolute kept (e :: es) =
      if e.isEmpty || e = (".": Bytes) then simplify absolute kept es
      else if e = (".." : Bytes) then
        match kept with
        | k :: ks =>
          if k = (".." : Bytes) then simplify absolute (e :: kept) es
          else simplify absolute ks es
        | [] => simplify absolute (if absolute then [] else [e]) es
      else simplify absolute (e :: kept) es := by
  cases kept <;> rfl

/-- A name that can stand in a directory is kept. -/
theorem simplify_append {name : Bytes} (h : IsProper name) (absolute : Bool) (kept es : List Bytes) :
    simplify absolute kept (es ++ [name]) = simplify absolute kept es ++ [name] := by
  obtain ⟨hempty, hdot, hdots, -⟩ := h
  induction es generalizing kept with
  | nil =>
    have hisEmpty : name.isEmpty = false := by simpa using hempty
    simp [simplify, hisEmpty, hdot, hdots]
  | cons e es ih =>
    rw [List.cons_append, simplify_cons, simplify_cons]
    split
    · exact ih kept
    · split
      · split
        · split
          · exact ih _
          · exact ih _
        · exact ih _
      · exact ih _

/-- What is left of elements without a slash has none, and nothing in it is empty. -/
theorem simplify_forall {absolute : Bool} {kept es : List Bytes}
    (hkept : ∀ e ∈ kept, e ≠ [] ∧ 0x2f ∉ e) (hes : ∀ e ∈ es, 0x2f ∉ e) :
    ∀ e ∈ simplify absolute kept es, e ≠ [] ∧ 0x2f ∉ e := by
  induction es generalizing kept with
  | nil => simpa [simplify] using hkept
  | cons e es ih =>
    have hrest : ∀ e ∈ es, 0x2f ∉ e := fun x hx => hes x (List.mem_cons_of_mem _ hx)
    have he : 0x2f ∉ e := hes e List.mem_cons_self
    rw [simplify_cons]
    split
    · exact ih hkept hrest
    rename_i hsome
    have hne : e ≠ [] := by
      rintro rfl
      exact hsome (by simp)
    have hpush : ∀ x ∈ e :: kept, x ≠ [] ∧ 0x2f ∉ x := by
      intro x hx
      rcases List.mem_cons.mp hx with rfl | hx
      · exact ⟨hne, he⟩
      · exact hkept x hx
    split
    · split
      · split
        · exact ih hpush hrest
        · exact ih (fun x hx => hkept x (List.mem_cons_of_mem _ hx)) hrest
      · refine ih ?_ hrest
        intro x hx
        split at hx
        · cases hx
        · obtain rfl : x = e := by simpa using hx
          exact ⟨hne, he⟩
    · exact ih hpush hrest

/-- The elements of a name below a path that is not empty. -/
theorem elements_join_name {path name : Bytes} (hpath : path ≠ []) (h : IsProper name) :
    let es := simplify (isAbsolute path) [] (elements path) ++ [name]
    isAbsolute (join path name) = isAbsolute path ∧ join path name ≠ [] ∧
      elements (join path name) = if isAbsolute path then [] :: es else es := by
  intro es
  have hisEmpty : path.isEmpty = false := by simpa using hpath
  have hjoin : join path name = clean (path ++ 0x2f :: name) := by
    rw [join, if_neg (by simp [hisEmpty]), List.append_assoc, List.singleton_append]
  have habs : isAbsolute (path ++ 0x2f :: name) = isAbsolute path := by
    cases path with
    | nil => exact absurd rfl hpath
    | cons b bs => rfl
  have helements : elements (path ++ 0x2f :: name) = elements path ++ [name] := by
    rw [elements_append_slash, elements_eq_singleton h.2.2.2]
  have hclean : join path name
      = if isAbsolute path then ofElements es else Bytes.join [0x2f] es := by
    rw [hjoin, clean, habs, helements, simplify_append h]
    simp [es]
  have hall : ∀ e ∈ es, e ≠ [] ∧ 0x2f ∉ e := by
    intro e he
    rcases List.mem_append.mp he with he | he
    · exact simplify_forall (by simp) (fun _ => slash_not_mem_of_mem_elements) e he
    · obtain rfl : e = name := by simpa using he
      exact ⟨h.1, h.2.2.2⟩
  have hne : es ≠ [] := by simp [es]
  have hsplit := elements_join hne fun e he => (hall e he).2
  rw [hclean]
  split
  · rename_i h'
    refine ⟨h'.symm ▸ by simp [ofElements, isAbsolute], by simp [ofElements], ?_⟩
    have hslash := elements_append_slash [] (Bytes.join [0x2f] es)
    rw [hsplit] at hslash
    exact hslash
  · rename_i h'
    refine ⟨?_, ?_, hsplit⟩
    · obtain ⟨e, rest, hes⟩ := List.exists_cons_of_ne_nil hne
      obtain ⟨he, hslash⟩ := hall e (by simp [hes])
      obtain ⟨b, bs, rfl⟩ := List.exists_cons_of_ne_nil he
      have hhead : (Bytes.join [0x2f] es).head? = some b := by
        rw [hes]
        cases rest <;> rfl
      have hb : b ≠ 0x2f := fun heq => hslash (by simp [heq])
      simp [isAbsolute, hhead, hb] at h' ⊢
      exact h'
    · intro hnil
      rcases join_eq_nil hnil with heq | heq
      · exact hne heq
      · exact (hall [] (by simp [heq])).1 rfl

/-! ### The last element -/

/-- The last element of a path; it is empty behind a slash. -/
def last (path : Bytes) : Bytes := (elements path).getLast (elements_ne_nil path)

theorem getLast?_elements (path : Bytes) : (elements path).getLast? = some (last path) :=
  List.getLast?_eq_some_getLast _

theorem last_append_slash (lead : Bytes) {name : Bytes} (h : 0x2f ∉ name) :
    last (lead ++ 0x2f :: name) = name := by
  apply Option.some_injective
  rw [← getLast?_elements, elements_append_slash, elements_eq_singleton h]
  simp

/-- A path is its last element, or that behind a slash. -/
theorem eq_last_or (path : Bytes) :
    path = last path ∨ ∃ lead, path = lead ++ 0x2f :: last path := by
  by_cases h : 0x2f ∈ path
  · right
    obtain ⟨name, lead, heq, hname⟩ := List.eq_append_cons_of_mem (List.mem_reverse.mpr h)
    have hpath : path = lead.reverse ++ 0x2f :: name.reverse := by
      rw [← List.reverse_reverse path, heq]
      simp
    have hlast : last path = name.reverse := by
      rw [hpath]
      exact last_append_slash _ (by simpa using hname)
    exact ⟨lead.reverse, by rw [hlast, hpath]⟩
  · left
    apply Option.some_injective
    rw [← getLast?_elements, elements_eq_singleton h]
    rfl

/-- A text without a slash ends a path when it ends its last element. -/
theorem endsWith_last {tail : Bytes} (h : 0x2f ∉ tail) (path : Bytes) :
    Bytes.endsWith tail path = Bytes.endsWith tail (last path) := by
  rcases eq_last_or path with heq | ⟨lead, heq⟩
  · rw [← heq]
  have hiff : tail <:+ path ↔ tail <:+ last path := by
    constructor
    · intro hsuffix
      rw [heq] at hsuffix
      have hwhole : 0x2f :: last path <:+ lead ++ 0x2f :: last path := List.suffix_append _ _
      rcases List.suffix_or_suffix_of_suffix hsuffix hwhole with hshort | hlong
      · rcases List.suffix_cons_iff.mp hshort with rfl | hshort
        · exact absurd List.mem_cons_self h
        · exact hshort
      · exact absurd (hlong.mem List.mem_cons_self) h
    · intro hsuffix
      rw [heq]
      exact hsuffix.trans ((List.suffix_cons _ _).trans (List.suffix_append _ _))
  have hdecide : ∀ bs, Bytes.endsWith tail bs = true ↔ tail <:+ bs := by
    intro bs
    rw [Bytes.endsWith, List.isPrefixOf_iff_prefix, List.reverse_prefix]
  rw [Bool.eq_iff_iff, hdecide, hdecide, hiff]

end BridgeCall.Path
