/-
  BridgeCall/Proofs/Marker/Collection.lean
  ========================================
  **Which files a run takes.**  The files below a directory are found by name, so
  that writing a file changes what is found by at most this one file, and only when
  it is new.  If it is no source itself and stands in no source's place, the sources
  of the paths are the same as before, in the same order
  (`Generate.IsSources.put`): a twin does not add to the work of the next run.
-/
import BridgeCall.Marker.Generate
import BridgeCall.Proofs.Files.Tree
import BridgeCall.Proofs.Marker.Tagging

namespace BridgeCall

/-! ### The order of names -/

namespace Bytes

theorem lt_asymm {a b : Bytes} (h : lt a b = true) : lt b a = false := by
  induction a generalizing b with
  | nil =>
    cases b with
    | nil => cases h
    | cons y ys => rfl
  | cons x xs ih =>
    cases b with
    | nil => cases h
    | cons y ys =>
      simp only [lt] at h ⊢
      split at h
      · rename_i heq
        rw [if_pos heq.symm]
        exact ih h
      · rename_i hne
        rw [if_neg (Ne.symm hne)]
        have hlt : x < y := of_decide_eq_true h
        exact decide_eq_false (UInt8.not_lt.mpr (UInt8.le_of_lt hlt))

theorem eq_of_not_lt {a b : Bytes} (h : lt a b = false) (h' : lt b a = false) : a = b := by
  induction a generalizing b with
  | nil =>
    cases b with
    | nil => rfl
    | cons y ys => cases h
  | cons x xs ih =>
    cases b with
    | nil => cases h'
    | cons y ys =>
      simp only [lt] at h h'
      by_cases heq : x = y
      · rw [if_pos heq] at h
        rw [if_pos heq.symm] at h'
        rw [heq, ih h h']
      · rw [if_neg heq] at h
        rw [if_neg (Ne.symm heq)] at h'
        have hle := UInt8.not_lt.mp (of_decide_eq_false h)
        have hle' := UInt8.not_lt.mp (of_decide_eq_false h')
        exact absurd (UInt8.le_antisymm hle' hle) heq

theorem lt_cotrans {a c : Bytes} (b : Bytes) (h : lt a c = true) :
    lt a b = true ∨ lt b c = true := by
  induction a generalizing b c with
  | nil =>
    cases c with
    | nil => cases h
    | cons z zs =>
      cases b with
      | nil => exact .inr rfl
      | cons y ys => exact .inl rfl
  | cons x xs ih =>
    cases c with
    | nil => cases h
    | cons z zs =>
      cases b with
      | nil => exact .inr rfl
      | cons y ys =>
        simp only [lt] at h ⊢
        by_cases hxy : x = y
        · subst hxy
          by_cases hxz : x = z
          · rw [if_pos hxz] at h
            simpa [hxz] using ih ys h
          · rw [if_neg hxz] at h
            exact .inr (by rw [if_neg hxz, h])
        · rw [if_neg hxy]
          by_cases hyz : y = z
          · subst hyz
            rw [if_neg hxy] at h
            exact .inl h
          · rw [if_neg hyz]
            by_cases hxz : x = z
            · subst hxz
              rcases UInt8.lt_or_lt_of_ne hxy with hlt | hlt
              · exact .inl (by simpa using hlt)
              · exact .inr (by simpa using hlt)
            · rw [if_neg hxz] at h
              have hlt : x < z := of_decide_eq_true h
              rcases UInt8.lt_or_lt_of_ne hxy with hless | hmore
              · exact .inl (by simpa using hless)
              · exact .inr (by simpa using UInt8.lt_trans hmore hlt)

/-- Sorted lists with the same members, equally often, are the same. -/
theorem mergeSort_filter_eq {l l' : List Bytes} {p : Bytes → Bool}
    (h : (l.filter p).Perm (l'.filter p)) :
    (l.mergeSort fun a b => !lt b a).filter p = (l'.mergeSort fun a b => !lt b a).filter p := by
  have hsorted : ∀ l : List Bytes,
      ((l.mergeSort fun a b => !lt b a).filter p).Pairwise fun a b => lt b a = false := by
    intro l
    have htrans : ∀ a b c : Bytes, (!lt b a) = true → (!lt c b) = true → (!lt c a) = true := by
      intro a b c hab hbc
      simp only [Bool.not_eq_true'] at hab hbc ⊢
      cases hac : lt c a with
      | false => rfl
      | true =>
        rcases lt_cotrans b hac with hcb | hba
        · simp [hcb] at hbc
        · simp [hba] at hab
    have htotal : ∀ a b : Bytes, (!lt b a || !lt a b) = true := by
      intro a b
      cases hab : lt b a with
      | false => rfl
      | true => simp [lt_asymm hab]
    exact ((List.pairwise_mergeSort htrans htotal l).imp fun hab => by simpa using hab).filter p
  refine List.Perm.eq_of_pairwise (fun a b _ _ hab hba => eq_of_not_lt hba hab)
    (hsorted l) (hsorted l') ?_
  exact ((List.mergeSort_perm l _).filter p).trans (h.trans ((List.mergeSort_perm l' _).filter p).symm)

end Bytes

/-! ### What stands in a directory -/

namespace Files

variable {f : Files} {q : List Bytes} {data : Bytes}

/-- An entry is listed under its last name when all other names are those of the directory. -/
theorem listed_eq_some {place p : List Bytes} {e : Entry} {x : Bytes × Entry} :
    (if p.length = place.length + 1 && place.isPrefixOf p then p.getLast?.map fun n => (n, e)
      else none) = some x ↔ p = place ++ [x.1] ∧ e = x.2 := by
  obtain ⟨name, e'⟩ := x
  constructor
  · intro hsome
    split at hsome
    · rename_i hbelow
      simp only [Bool.and_eq_true, decide_eq_true_eq, List.isPrefixOf_iff_prefix] at hbelow
      obtain ⟨hlength, rest, rfl⟩ := hbelow
      obtain ⟨last, rfl⟩ : ∃ last, rest = [last] := by
        rw [List.length_append] at hlength
        exact List.length_eq_one_iff.mp (by omega)
      simpa using hsome
    · cases hsome
  · rintro ⟨rfl, rfl⟩
    simp

theorem mem_list {place : List Bytes} {x : Bytes × Entry} :
    x ∈ f.list place ↔ (place ++ [x.1], x.2) ∈ f.entries := by
  rw [list, List.mem_mergeSort, List.mem_filterMap]
  constructor
  · rintro ⟨⟨p, e⟩, hmem, hsome⟩
    obtain ⟨rfl, rfl⟩ := listed_eq_some.mp hsome
    exact hmem
  · exact fun hmem => ⟨_, hmem, listed_eq_some.mpr ⟨rfl, rfl⟩⟩

theorem IsTree.nodup_list (h : f.IsTree) (place : List Bytes) : (f.list place).Nodup := by
  rw [list, (List.mergeSort_perm _ _).nodup_iff]
  refine List.Nodup.filterMap ?_ (List.Nodup.of_map _ h.nodup)
  rintro ⟨p, e⟩ ⟨p', e'⟩ x hx hx'
  obtain ⟨rfl, rfl⟩ := listed_eq_some.mp hx
  obtain ⟨rfl, rfl⟩ := listed_eq_some.mp hx'
  rfl

theorem IsTree.at?_of_mem_list (h : f.IsTree) {place : List Bytes} {x : Bytes × Entry}
    (hx : x ∈ f.list place) : f.at? (place ++ [x.1]) = some x.2 ∧ Path.IsProper x.1 := by
  have hmem := mem_list.mp hx
  refine ⟨(h.at?_eq_some_iff (by simp)).mpr hmem, ?_⟩
  exact (h.proper _ hmem).2 x.1 (by simp)

/-- After a file is put somewhere, a directory has the same entries at all other places. -/
theorem IsTree.list_put (h : f.IsTree) (hq : f.Fits q) (place : List Bytes) :
    (((f.put q (.file data)).list place).filter fun x => place ++ [x.1] ≠ q).Perm
      ((f.list place).filter fun x => place ++ [x.1] ≠ q) := by
  refine (List.perm_ext_iff_of_nodup ?_ ?_).mpr fun x => ?_
  · exact ((h.put hq data).nodup_list place).filter _
  · exact (h.nodup_list place).filter _
  · rw [List.mem_filter, List.mem_filter, mem_list, mem_list]
    simp only [Files.put, List.mem_append, List.mem_filter, List.mem_singleton, Prod.mk.injEq, ne_eq,
      decide_not, Bool.not_eq_eq_eq_not, Bool.not_true, decide_eq_false_iff_not]
    constructor
    · rintro ⟨⟨hmem, -⟩ | ⟨heq, -⟩, hne⟩
      · exact ⟨hmem, hne⟩
      · exact absurd heq hne
    · rintro ⟨hmem, hne⟩
      exact ⟨.inl ⟨hmem, hne⟩, hne⟩

end Files

/-! ### Walking through directories -/

namespace Generate

variable {settings : Settings} {f : Files} {q : List Bytes} {data : Bytes} {suffix : Bytes}

/-- What is found under a name in a directory. -/
def visit (f : Files) (suffix : Bytes) (depth : Nat) (place : List Bytes) (path : Bytes)
    (x : Bytes × Entry) : List Bytes :=
  match x with
  | (name, .directory) =>
    if isSkipped name then [] else walk f suffix depth (place ++ [name]) (Path.join path name)
  | (name, .file _) => if isSource suffix name then [Path.join path name] else []

theorem walk_succ (f : Files) (suffix : Bytes) (depth : Nat) (place : List Bytes) (path : Bytes) :
    walk f suffix (depth + 1) place path
      = (f.list place).flatMap (visit f suffix depth place path) := by
  rfl

theorem flatMap_filter_of_nil {α β : Type} {l : List α} {p : α → Bool} {k : α → List β}
    (h : ∀ x ∈ l, p x = false → k x = []) : l.flatMap k = (l.filter p).flatMap k := by
  induction l with
  | nil => rfl
  | cons x l ih =>
    have hrest := ih fun y hy => h y (List.mem_cons_of_mem _ hy)
    rw [List.flatMap_cons, hrest]
    cases hx : p x with
    | true => rw [List.filter_cons_of_pos hx, List.flatMap_cons]
    | false =>
      rw [List.filter_cons_of_neg (by simp [hx]), h x List.mem_cons_self hx, List.nil_append]

/-- After a file is put somewhere, the same is found as before, but for paths that lead there. -/
theorem walk_put (data suffix : Bytes) (h : f.IsTree) (hq : f.Fits q) {p : Bytes → Bool}
    (hp : ∀ path, f.locate path = .ok q → p path = false) (depth : Nat) {place : List Bytes}
    {path : Bytes} (hpath : f.locate path = .ok place) (hplace : f.at? place = some .directory) :
    ((walk (f.put q (.file data)) suffix depth place path).filter p).Perm
      ((walk f suffix depth place path).filter p) := by
  induction depth generalizing place path with
  | zero => exact .nil
  | succ depth ih =>
    have hhere : ∀ (g : Files) (x : Bytes × Entry), place ++ [x.1] = q → Path.IsProper x.1 →
        x.2 ≠ .directory → (visit g suffix depth place path x).filter p = [] := by
      rintro g ⟨name, e⟩ heq hname hfile
      cases e with
      | directory => exact absurd rfl hfile
      | file content =>
        have hlocate := Files.locate_join hpath hplace hname
        have hfalse := hp _ (heq ▸ hlocate)
        simp only [visit]
        split
        · rw [List.filter_cons_of_neg (by simp [hfalse])]
          rfl
        · rfl
    have hnew : ∀ x ∈ (f.put q (.file data)).list place,
        decide (place ++ [x.1] ≠ q) = false →
        (visit (f.put q (.file data)) suffix depth place path x).filter p = [] := by
      intro x hx hkeep
      have heq : place ++ [x.1] = q := by simpa using hkeep
      obtain ⟨hat, hname⟩ := (h.put hq data).at?_of_mem_list hx
      rw [heq, Files.at?_put f hq.ne_nil, if_pos rfl] at hat
      refine hhere _ x heq hname fun hdir => ?_
      rw [hdir] at hat
      cases hat
    have hold : ∀ x ∈ f.list place, decide (place ++ [x.1] ≠ q) = false →
        (visit f suffix depth place path x).filter p = [] := by
      intro x hx hkeep
      have heq : place ++ [x.1] = q := by simpa using hkeep
      obtain ⟨hat, hname⟩ := h.at?_of_mem_list hx
      refine hhere _ x heq hname fun hdir => ?_
      rw [hdir, heq] at hat
      exact hq.free hat
    rw [walk_succ, walk_succ, List.filter_flatMap, List.filter_flatMap,
      flatMap_filter_of_nil hnew, flatMap_filter_of_nil hold]
    refine ((h.list_put hq place).flatMap_right _).trans (List.Perm.flatMap_left _ fun x hx => ?_)
    obtain ⟨hx, hkeep⟩ := List.mem_filter.mp hx
    obtain ⟨hat, hname⟩ := h.at?_of_mem_list hx
    obtain ⟨name, e⟩ := x
    cases e with
    | directory =>
      simp only [visit]
      split
      · exact .nil
      · exact ih (Files.locate_join hpath hplace hname) hat
    | file content => exact .refl _

/-- The number of entries below a place. -/
def size (f : Files) (place : List Bytes) : Nat :=
  f.entries.countP fun x => place.isPrefixOf x.1 && x.1 ≠ place

theorem size_lt {place : List Bytes} {name : Bytes} {e : Entry}
    (h : (place ++ [name], e) ∈ f.entries) : size f (place ++ [name]) < size f place := by
  have hfewer : size f (place ++ [name])
      = (f.entries.filter fun x => place.isPrefixOf x.1 && x.1 ≠ place).countP
        fun x => (place ++ [name]).isPrefixOf x.1 && x.1 ≠ place ++ [name] := by
    rw [List.countP_filter]
    refine List.countP_congr fun x _ => ?_
    simp only [Bool.and_eq_true, List.isPrefixOf_iff_prefix, decide_eq_true_eq]
    constructor
    · rintro ⟨hlead, hne⟩
      refine ⟨⟨hlead, hne⟩, (List.prefix_append _ _).trans hlead, ?_⟩
      intro heq
      have := hlead.length_le
      rw [heq, List.length_append, List.length_singleton] at this
      omega
    · exact fun h => h.1
  rw [hfewer, size, List.countP_eq_length_filter, List.countP_eq_length_filter (l := f.entries),
    ← List.countP_eq_length_filter, List.countP_lt_length_iff]
  refine ⟨_, List.mem_filter.mpr ⟨h, ?_⟩, ?_⟩
  · simp
  · simp

theorem size_le (f : Files) (place : List Bytes) : size f place ≤ f.entries.length :=
  List.countP_le_length

/-- Once the depth is above the number of entries it does not matter. -/
theorem walk_depth (f : Files) (suffix : Bytes) {n m : Nat} {place : List Bytes} (path : Bytes)
    (hn : size f place < n) (hm : size f place < m) :
    walk f suffix n place path = walk f suffix m place path := by
  induction n generalizing m place path with
  | zero => omega
  | succ n ih =>
    cases m with
    | zero => omega
    | succ m =>
      rw [walk_succ, walk_succ]
      refine List.flatMap_congr fun x hx => ?_
      obtain ⟨name, e⟩ := x
      cases e with
      | file content => rfl
      | directory =>
        have hsize : size f (place ++ [name]) < size f place := size_lt (Files.mem_list.mp hx)
        simp only [visit]
        split
        · rfl
        · exact ih _ (by omega) (by omega)

/-- What is found below a directory are files with names of sources. -/
theorem mem_walk (h : f.IsTree) {depth : Nat} {place : List Bytes} {path found : Bytes}
    (hpath : f.locate path = .ok place) (hplace : f.at? place = some .directory)
    (hmem : found ∈ walk f suffix depth place path) :
    ∃ q content, f.locate found = .ok q ∧ f.at? q = some (.file content)
      ∧ isSource suffix (Path.last found) = true := by
  induction depth generalizing place path with
  | zero => cases hmem
  | succ depth ih =>
    rw [walk_succ, List.mem_flatMap] at hmem
    obtain ⟨⟨name, e⟩, hx, hfound⟩ := hmem
    obtain ⟨hat, hname⟩ := h.at?_of_mem_list hx
    have hlocate := Files.locate_join hpath hplace hname
    cases e with
    | directory =>
      simp only [visit] at hfound
      split at hfound
      · cases hfound
      · exact ih hlocate hat hfound
    | file content =>
      simp only [visit] at hfound
      split at hfound
      · rename_i hsource
        obtain rfl := List.mem_singleton.mp hfound
        refine ⟨_, content, hlocate, hat, ?_⟩
        obtain ⟨d, heq, -, -⟩ := h.locate_last hlocate (by simp [hat])
        have hlast := congrArg List.getLast? heq
        simp only [List.getLast?_append, List.getLast?_singleton, Option.some_or,
          Option.some.injEq] at hlast
        exact hlast ▸ hsource
      · cases hfound

/-! ### Collecting -/

theorem collectPath_eq_ok_iff {path : Bytes} {found : List Bytes} :
    collectPath f suffix path = .ok found ↔ ∃ q, f.locate path = .ok q
      ∧ ((∃ content, f.at? q = some (.file content)) ∧ found = [path]
        ∨ f.at? q = some .directory
          ∧ found = walk f suffix (f.entries.length + 1) q path) := by
  rw [collectPath]
  cases hlocate : f.locate path with
  | error problem => simp [Files.stat, Files.find, hlocate, Bind.bind, Except.bind]
  | ok q =>
    cases hat : f.at? q with
    | none => simp [Files.stat, Files.find_of_locate hlocate, hat, Bind.bind, Except.bind]
    | some e =>
      cases e with
      | directory =>
        simp [Files.stat, Files.find_of_locate hlocate, hat, Bind.bind, Except.bind, Pure.pure,
          Except.pure, eq_comm]
      | file content =>
        simp [Files.stat, Files.find_of_locate hlocate, hat, Bind.bind, Except.bind, Pure.pure,
          Except.pure, eq_comm]

/-- After a file is put somewhere, a path gives the same files as before, but for paths that lead
    there. -/
theorem collectPath_put (data : Bytes) (h : f.IsTree) (hq : f.Fits q) {p : Bytes → Bool}
    (hp : ∀ path, f.locate path = .ok q → p path = false) {path : Bytes} {found : List Bytes}
    (hfound : collectPath f suffix path = .ok found) :
    ∃ found', collectPath (f.put q (.file data)) suffix path = .ok found'
      ∧ (found'.filter p).Perm (found.filter p) := by
  have hdirs := Files.sameDirs_put hq.free data
  obtain ⟨place, hlocate, hfile | hdir⟩ := collectPath_eq_ok_iff.mp hfound
  · obtain ⟨⟨content, hat⟩, rfl⟩ := hfile
    refine ⟨[path], collectPath_eq_ok_iff.mpr ⟨place, hdirs.locate.mpr hlocate, .inl ⟨?_, rfl⟩⟩,
      .refl _⟩
    rw [Files.at?_put f hq.ne_nil]
    split
    · exact ⟨data, rfl⟩
    · exact ⟨content, hat⟩
  · obtain ⟨hat, rfl⟩ := hdir
    refine ⟨_, collectPath_eq_ok_iff.mpr ⟨place, hdirs.locate.mpr hlocate,
      .inr ⟨(hdirs.directory place).mpr hat, rfl⟩⟩, ?_⟩
    have hwalk := walk_put data suffix h hq hp
      ((f.put q (.file data)).entries.length + f.entries.length + 1) hlocate hat
    have hnew := size_le (f.put q (.file data)) place
    have hold := size_le f place
    rw [walk_depth _ suffix path (m := (f.put q (.file data)).entries.length + 1) (by omega)
      (by omega)] at hwalk
    rw [walk_depth f suffix path (m := f.entries.length + 1) (by omega) (by omega)] at hwalk
    exact hwalk

theorem mapM_eq_ok_iff {α β ε : Type} {k : α → Except ε β} {l : List α} {r : List β} :
    l.mapM k = .ok r ↔ List.Forall₂ (fun x y => k x = .ok y) l r := by
  induction l generalizing r with
  | nil => simp [Pure.pure, Except.pure, eq_comm]
  | cons x l ih =>
    rw [List.mapM_cons, List.forall₂_cons_left_iff]
    cases hx : k x with
    | error e => simp [Bind.bind, Except.bind]
    | ok y =>
      cases hl : l.mapM k with
      | error e => simp [← ih, hl, Bind.bind, Except.bind]
      | ok ys => simp [← ih, hl, Bind.bind, Except.bind, Pure.pure, Except.pure, eq_comm]

theorem collect_eq_ok_iff {paths files : List Bytes} :
    collect f suffix paths = .ok files ↔
      ∃ found, List.Forall₂ (fun path l => collectPath f suffix path = .ok l) paths found
        ∧ found.flatten.mergeSort (fun a b => !Bytes.lt b a) = files := by
  rw [collect]
  simp only [← mapM_eq_ok_iff]
  cases paths.mapM (collectPath f suffix) with
  | error e => simp [Bind.bind, Except.bind]
  | ok found => simp [Bind.bind, Except.bind, Pure.pure, Except.pure]

/-- After a file is put somewhere, all paths give the same files as before, but for those that lead
    there. -/
theorem collect_put (data : Bytes) (h : f.IsTree) (hq : f.Fits q) {p : Bytes → Bool}
    (hp : ∀ path, f.locate path = .ok q → p path = false) {paths files : List Bytes}
    (hfiles : collect f suffix paths = .ok files) :
    ∃ files', collect (f.put q (.file data)) suffix paths = .ok files'
      ∧ files'.filter p = files.filter p := by
  obtain ⟨found, hfound, rfl⟩ := collect_eq_ok_iff.mp hfiles
  have hlater : ∃ found',
      List.Forall₂ (fun path l => collectPath (f.put q (.file data)) suffix path = .ok l) paths found'
        ∧ (found'.flatten.filter p).Perm (found.flatten.filter p) := by
    clear hfiles
    induction hfound with
    | nil => exact ⟨[], .nil, .refl _⟩
    | cons hfirst _ ih =>
      obtain ⟨first, hfirst', hperm⟩ := collectPath_put data h hq hp hfirst
      obtain ⟨rest, hrest, hperm'⟩ := ih
      refine ⟨first :: rest, .cons hfirst' hrest, ?_⟩
      rw [List.flatten_cons, List.flatten_cons, List.filter_append, List.filter_append]
      exact hperm.append hperm'
  obtain ⟨found', hfound', hperm⟩ := hlater
  exact ⟨_, collect_eq_ok_iff.mpr ⟨found', hfound', rfl⟩, Bytes.mergeSort_filter_eq hperm⟩

/-! ### Sources -/

/-- The scan of a file, when it is tagged. -/
def source? (settings : Settings) (f : Files) (path : Bytes) : Option Scan :=
  match scanFile f settings path with
  | .ok s => if s.tagged then some s else none
  | .error _ => none

/-- All files of some paths can be scanned, and these are the tagged ones among them, in order. -/
def IsSources (settings : Settings) (f : Files) (paths : List Bytes) (scans : List Scan) : Prop :=
  ∃ files, collect f settings.suffix paths = .ok files
    ∧ (∀ path ∈ files, ∃ s, scanFile f settings path = .ok s)
    ∧ files.filterMap (source? settings f) = scans

theorem scanFile_eq_ok_iff {path : Bytes} {s : Scan} :
    scanFile f settings path = .ok s ↔
      ∃ text, f.read path = .ok text ∧ Scan.run settings path text = .ok s := by
  rw [scanFile]
  cases f.read path with
  | error e => simp
  | ok text => cases hrun : Scan.run settings path text <;> simp [hrun]

theorem name_of_scanFile {path : Bytes} {s : Scan} (h : scanFile f settings path = .ok s) :
    s.name = path := by
  obtain ⟨text, -, hrun⟩ := scanFile_eq_ok_iff.mp h
  obtain ⟨-, -, hname, -⟩ := Scan.run_eq_ok hrun
  exact hname

theorem source?_eq_some_iff {path : Bytes} {s : Scan} :
    source? settings f path = some s ↔ scanFile f settings path = .ok s ∧ s.tagged = true := by
  rw [source?]
  cases scanFile f settings path with
  | error e => simp
  | ok s' =>
    by_cases htagged : s'.tagged = true
    · simp only [htagged, if_true, Option.some.injEq, Except.ok.injEq]
      constructor
      · rintro rfl
        exact ⟨rfl, htagged⟩
      · exact fun h => h.1
    · simp only [htagged, Bool.false_eq_true, if_false, reduceCtorEq, Except.ok.injEq, false_iff]
      rintro ⟨rfl, h⟩
      exact htagged h

theorem filterMap_eq_filter {α β : Type} {k : α → Option β} (l : List α) :
    l.filterMap k = (l.filter fun x => (k x).isSome).filterMap k := by
  rw [List.filterMap_filter]
  refine List.filterMap_congr fun x _ => ?_
  cases k x <;> simp

/-- A file that is no source, put where no source is, leaves the sources of all paths as they are. -/
theorem IsSources.put {paths : List Bytes} {scans : List Scan} (h : f.IsTree) (hq : f.Fits q)
    (hdata : ∀ name, ∃ s, Scan.run settings name data = .ok s ∧ s.tagged = false)
    (hapart : ∀ s ∈ scans, f.locate s.name ≠ .ok q) (hscans : IsSources settings f paths scans) :
    IsSources settings (f.put q (.file data)) paths scans := by
  obtain ⟨files, hfiles, hscanned, rfl⟩ := hscans
  set g := f.put q (.file data) with hg
  have hdirs : f.SameDirs g := Files.sameDirs_put hq.free data
  have hat : ∀ p, g.at? p = if p = q then some (.file data) else f.at? p := Files.at?_put f hq.ne_nil _
  have hthere : ∀ path, f.locate path = .ok q →
      ∃ s, scanFile g settings path = .ok s ∧ s.tagged = false := by
    intro path hpath
    obtain ⟨s, hrun, htagged⟩ := hdata path
    refine ⟨s, scanFile_eq_ok_iff.mpr ⟨data, ?_, hrun⟩, htagged⟩
    exact Files.read_eq_ok_iff.mpr ⟨q, hdirs.locate.mpr hpath, by rw [hat, if_pos rfl]⟩
  have helsewhere : ∀ path s, f.locate path ≠ .ok q → scanFile f settings path = .ok s →
      scanFile g settings path = .ok s := by
    intro path s hne hs
    obtain ⟨text, hread, hrun⟩ := scanFile_eq_ok_iff.mp hs
    obtain ⟨p, hp, htext⟩ := Files.read_eq_ok_iff.mp hread
    refine scanFile_eq_ok_iff.mpr ⟨text, ?_, hrun⟩
    refine Files.read_eq_ok_iff.mpr ⟨p, hdirs.locate.mpr hp, ?_⟩
    rw [hat, if_neg, htext]
    rintro rfl
    exact hne hp
  have hnone : ∀ path, f.locate path = .ok q → source? settings g path = none := by
    intro path hpath
    obtain ⟨s, hs, htagged⟩ := hthere path hpath
    simp [source?, hs, htagged]
  obtain ⟨files', hfiles', hsame⟩ := collect_put data h hq
    (p := fun path => (source? settings g path).isSome) (fun path hpath => by simp [hnone path hpath])
    hfiles
  obtain ⟨files'', hfiles'', hothers⟩ := collect_put data h hq
    (p := fun path => (f.locate path).toOption != some q)
    (fun path hpath => by simp [hpath, Except.toOption]) hfiles
  obtain rfl : files' = files'' := by simpa [hfiles'] using hfiles''
  refine ⟨files', hfiles', ?_, ?_⟩
  · intro path hpath
    by_cases hlocate : f.locate path = .ok q
    · obtain ⟨s, hs, -⟩ := hthere path hlocate
      exact ⟨s, hs⟩
    · have hkept : path ∈ files'.filter fun path => (f.locate path).toOption != some q := by
        refine List.mem_filter.mpr ⟨hpath, ?_⟩
        cases hp : f.locate path with
        | error e => rfl
        | ok p =>
          rw [hp] at hlocate
          simpa [Except.toOption] using hlocate
      rw [hothers] at hkept
      obtain ⟨s, hs⟩ := hscanned path (List.mem_of_mem_filter hkept)
      exact ⟨s, helsewhere path s hlocate hs⟩
  · rw [filterMap_eq_filter files', hsame, ← filterMap_eq_filter files]
    refine List.filterMap_congr fun path hpath => ?_
    obtain ⟨s, hs⟩ := hscanned path hpath
    by_cases hlocate : f.locate path = .ok q
    · rw [hnone path hlocate]
      cases hsource : source? settings f path with
      | none => rfl
      | some s =>
        refine absurd ?_ (hapart s (List.mem_filterMap.mpr ⟨path, hpath, hsource⟩))
        rw [name_of_scanFile (source?_eq_some_iff.mp hsource).1, hlocate]
    · rw [source?, source?, hs, helsewhere path s hlocate hs]

end Generate
end BridgeCall
