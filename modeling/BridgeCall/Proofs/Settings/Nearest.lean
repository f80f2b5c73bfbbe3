/-
  BridgeCall/Proofs/Settings/Nearest.lean
  =======================================
  **The nearest settings count.**  From a directory the search goes up through the
  directories above it and stops at the first that holds a settings file, whatever
  that file is worth (`Settings.find_nearest`).  From a file there is no search:
  already the place of a settings file right below it cannot be looked at.

  Places are lists of names, so the places above one are its prefixes, and the
  search is an induction that takes the last name off.  In a tree the letters of a
  path say where it leads: what is left of an absolute path after cleaning is the
  place itself (`Files.IsTree.absolute_eq`).
-/
import BridgeCall.Proofs.Files.Tree
import BridgeCall.Settings.Find

namespace BridgeCall

namespace Files

variable {f : Files}

/-! ### Places -/

theorem IsTree.directory_of_prefix (h : f.IsTree) {place dir : List Bytes}
    (hplace : f.at? place = some .directory) (hdir : dir <+: place) :
    f.at? dir = some .directory := by
  induction place using List.reverseRecOn with
  | nil =>
    rw [List.prefix_nil.mp hdir]
    rfl
  | append_singleton above name ih =>
    rcases List.prefix_concat_iff.mp hdir with rfl | hdir
    · exact hplace
    · have habove := h.parent_directory hplace
      rw [List.dropLast_concat] at habove
      exact ih habove hdir

/-- Names that can stand in a directory lead below each other. -/
theorem follow_names {place names q : List Bytes} (hnames : ∀ n ∈ names, Path.IsProper n)
    (hf : f.follow place names = .ok q) : q = place ++ names := by
  induction names generalizing place with
  | nil =>
    cases hf
    simp
  | cons n names ih =>
    have hsplit : f.follow place ([n] ++ names) = .ok q := hf
    obtain ⟨p, hp, hq⟩ := follow_append.mp hsplit
    obtain ⟨-, rfl⟩ := (follow_name_iff (hnames n List.mem_cons_self)).mp hp
    rw [ih (fun x hx => hnames x (List.mem_cons_of_mem _ hx)) hq]
    simp

theorem follow_of_directories {place names : List Bytes} (hnames : ∀ n ∈ names, Path.IsProper n)
    (hdirs : ∀ dir, dir <+: names → dir ≠ names → f.at? (place ++ dir) = some .directory) :
    f.follow place names = .ok (place ++ names) := by
  induction names using List.reverseRecOn with
  | nil => simp [follow]
  | append_singleton above n ih =>
    have hne : above ≠ above ++ [n] := by simp
    have habove : f.follow place above = .ok (place ++ above) := by
      apply ih
      · exact fun x hx => hnames x (List.mem_append_left _ hx)
      · intro dir hdir _
        apply hdirs dir (hdir.trans (List.prefix_append _ _))
        rintro rfl
        have := hdir.length_le
        rw [List.length_append, List.length_singleton] at this
        omega
    refine follow_append.mpr ⟨_, habove, ?_⟩
    refine (follow_name_iff (hnames n (by simp))).mpr ⟨?_, by simp⟩
    exact hdirs above (List.prefix_append _ _) hne

/-- The root and the names of a place lead to it. -/
theorem IsTree.follow_place (h : f.IsTree) {place : List Bytes} {e : Entry}
    (hplace : f.at? place = some e) : f.follow [] place = .ok place := by
  refine follow_of_directories (h.proper_of_at? hplace) ?_
  intro dir hdir hne
  rw [List.nil_append]
  refine h.directory_of_prefix (h.parent_directory hplace) ?_
  obtain ⟨rest, rfl⟩ := hdir
  rw [List.dropLast_append_of_ne_nil (by rintro rfl; simp at hne)]
  exact List.prefix_append _ _

end Files

/-- Nothing that is left of an absolute path stands for another place. -/
theorem Path.simplify_proper {kept es : List Bytes} (hkept : ∀ e ∈ kept, IsProper e)
    (hes : ∀ e ∈ es, 0x2f ∉ e) : ∀ e ∈ simplify true kept es, IsProper e := by
  induction es generalizing kept with
  | nil => simpa [simplify] using hkept
  | cons e es ih =>
    have hrest : ∀ e ∈ es, 0x2f ∉ e := fun x hx => hes x (List.mem_cons_of_mem _ hx)
    rw [simplify_cons]
    split
    · exact ih hkept hrest
    rename_i hsome
    simp only [Bool.or_eq_true, List.isEmpty_iff, decide_eq_true_eq, not_or] at hsome
    split
    · cases kept with
      | nil => exact ih (by simp) hrest
      | cons k ks =>
        have hk := hkept k List.mem_cons_self
        dsimp only
        rw [if_neg hk.2.2.1]
        exact ih (fun x hx => hkept x (List.mem_cons_of_mem _ hx)) hrest
    · rename_i hdots
      refine ih ?_ hrest
      intro x hx
      rcases List.mem_cons.mp hx with rfl | hx
      · exact ⟨hsome.1, hsome.2, hdots, hes x List.mem_cons_self⟩
      · exact hkept x hx

namespace Files

variable {f : Files}

/-- The letters of a path that leads somewhere spell the place. -/
theorem IsTree.absolute_eq (h : f.IsTree) {path : Bytes} {place : List Bytes}
    (hpath : f.locate path = .ok place) : Path.absolute f.cwd path = place := by
  have hes : ∀ e ∈ Path.elements path, 0x2f ∉ e := fun _ => Path.slash_not_mem_of_mem_elements
  -- one walk from the root, through the current directory when the path is relative
  have hwalk : ∀ es, (∀ e ∈ es, 0x2f ∉ e) → f.follow [] es = .ok place →
      Path.simplify true [] es = place := by
    intro es hslash hfollow
    have hsame : f.follow [] (Path.simplify true [] es) = .ok place :=
      follow_simplify (fun _ => rfl) (by simp) hslash (by rfl) hfollow
    have hproper : ∀ e ∈ Path.simplify true [] es, Path.IsProper e :=
      Path.simplify_proper (by simp) hslash
    simpa using (follow_names hproper hsame).symm
  rw [locate] at hpath
  split at hpath
  · cases hpath
  rw [Path.absolute]
  split at hpath
  · rename_i habsolute
    rw [if_pos habsolute, List.nil_append]
    exact hwalk _ hes hpath
  · rename_i hrelative
    rw [if_neg hrelative]
    obtain ⟨e, es, hsplit⟩ := List.exists_cons_of_ne_nil (Path.elements_ne_nil path)
    have hcwd : f.at? f.cwd = some .directory := by
      rw [hsplit] at hpath
      exact directory_of_follow hpath
    refine hwalk _ ?_ (follow_append.mpr ⟨f.cwd, h.follow_place hcwd, hpath⟩)
    intro x hx
    rcases List.mem_append.mp hx with hx | hx
    · exact (h.proper_of_at? hcwd x hx).2.2.2
    · exact hes x hx

theorem elements_ofElements {es : List Bytes} (hne : es ≠ []) (h : ∀ e ∈ es, 0x2f ∉ e) :
    Path.elements (Path.ofElements es) = [] :: es := by
  have hslash := Path.elements_append_slash [] (Bytes.join [0x2f] es)
  rw [Path.elements_join hne h] at hslash
  exact hslash

/-- The path of a place is followed from the root. -/
theorem locate_ofElements {es : List Bytes} (hne : es ≠ []) (h : ∀ e ∈ es, 0x2f ∉ e) :
    f.locate (Path.ofElements es) = f.follow [] es := by
  have hsome : (Path.ofElements es).isEmpty = false := rfl
  have habsolute : Path.isAbsolute (Path.ofElements es) = true := rfl
  rw [locate, if_neg (by simp [hsome]), if_pos habsolute, elements_ofElements hne h,
    follow_cons_of_directory rfl, if_pos (by simp)]

theorem IsTree.locate_below (h : f.IsTree) {place : List Bytes} {name : Bytes} {e : Entry}
    (hplace : f.at? place = some e) (hname : Path.IsProper name) :
    f.locate (Path.ofElements (place ++ [name])) = f.follow [] (place ++ [name]) := by
  refine locate_ofElements (by simp) ?_
  intro x hx
  rcases List.mem_append.mp hx with hx | hx
  · exact (h.proper_of_at? hplace x hx).2.2.2
  · rw [List.mem_singleton.mp hx]
    exact hname.2.2.2

/-- What stands under a name in a directory is found by the path of its place. -/
theorem IsTree.find_below (h : f.IsTree) {dir : List Bytes} {name : Bytes}
    (hdir : f.at? dir = some .directory) (hname : Path.IsProper name) :
    f.find (Path.ofElements (dir ++ [name])) =
      match f.at? (dir ++ [name]) with
      | some e => .ok e
      | none => .error .missing := by
  apply find_of_locate
  rw [h.locate_below hdir hname]
  exact follow_append.mpr ⟨dir, h.follow_place hdir, (follow_name_iff hname).mpr ⟨hdir, rfl⟩⟩

theorem follow_below_file {start place es : List Bytes} {content : Bytes}
    (hplace : f.at? place = some (.file content)) (hes : f.follow start es = .ok place)
    (name : Bytes) : f.follow start (es ++ [name]) = .error .notDirectory := by
  induction es generalizing start with
  | nil =>
    cases hes
    rw [List.nil_append, follow, hplace]
  | cons e es ih =>
    have hstart := directory_of_follow hes
    rw [follow_cons_of_directory hstart] at hes
    rw [List.cons_append, follow_cons_of_directory hstart]
    split at hes
    · rw [if_pos ‹_›]
      exact ih hes
    · rw [if_neg ‹_›]
      split at hes
      · rw [if_pos ‹_›]
        exact ih hes
      · rw [if_neg ‹_›]
        exact ih hes

/-- Nothing can be looked for below a file. -/
theorem IsTree.find_below_file (h : f.IsTree) {place : List Bytes} {name content : Bytes}
    (hplace : f.at? place = some (.file content)) (hname : Path.IsProper name) :
    f.find (Path.ofElements (place ++ [name])) = .error .notDirectory := by
  rw [find, h.locate_below hplace hname, follow_below_file hplace (h.follow_place hplace)]
  rfl

end Files

namespace Settings

variable {f : Files}

/-! ### Searching -/

/-- The directory holds the settings file, or something else under its name. -/
def Holds (f : Files) (dir : List Bytes) : Prop := (f.at? (dir ++ [fileName])).isSome

instance (f : Files) (dir : List Bytes) : Decidable (Holds f dir) :=
  inferInstanceAs (Decidable (_ = true))

/-- Of the directories at a place and above it that hold a settings file, the one closest to the
    place. -/
structure IsNearest (f : Files) (place dir : List Bytes) : Prop where
  above : dir <+: place
  holds : Holds f dir
  closest : ∀ d, d <+: place → Holds f d → d <+: dir

/-- What a search gives that ends at what a directory holds under the name of the settings file. -/
def settled (f : Files) (dir : List Bytes) : Except LoadError (Settings × Option Bytes) :=
  let path := Path.ofElements (dir ++ [fileName])
  match f.at? (dir ++ [fileName]) with
  | none => .ok ({}, none)
  | some .directory => .error (.file ⟨"read", path, .isDirectory⟩)
  | some (.file text) =>
    match parse text with
    | .ok s => .ok (s, some path)
    | .error e => .error (.settings path e)

theorem isProper_fileName : Path.IsProper fileName := by decide

theorem search_holding (hf : f.IsTree) {dir : List Bytes} (above : List (List Bytes))
    (hdir : f.at? dir = some .directory) (hholds : Holds f dir) :
    search f (dir :: above) = settled f dir := by
  have hfind := hf.find_below hdir isProper_fileName
  obtain ⟨e, he⟩ := Option.isSome_iff_exists.mp hholds
  rw [he] at hfind
  cases e with
  | directory =>
    have hload : load f (Path.ofElements (dir ++ [fileName])) =
        .error (.file ⟨"read", Path.ofElements (dir ++ [fileName]), .isDirectory⟩) := by
      rw [load, Files.read, hfind]
    simp only [search, settled, hload, he, LoadError.isMissing]
    rfl
  | file text =>
    have hread : f.read (Path.ofElements (dir ++ [fileName])) = .ok text := by
      rw [Files.read, hfind]
    simp only [search, settled, load, hread, he]
    cases parse text with
    | ok s => rfl
    | error e => rfl

theorem search_empty (hf : f.IsTree) {dir : List Bytes} (above : List (List Bytes))
    (hdir : f.at? dir = some .directory) (hnone : ¬ Holds f dir) :
    search f (dir :: above) = search f above := by
  have hfind := hf.find_below hdir isProper_fileName
  have hat : f.at? (dir ++ [fileName]) = none := by simpa [Holds] using hnone
  rw [hat] at hfind
  have hload : load f (Path.ofElements (dir ++ [fileName])) =
      .error (.file ⟨"open", Path.ofElements (dir ++ [fileName]), .missing⟩) := by
    rw [load, Files.read, hfind]
  simp only [search, hload, LoadError.isMissing]
  rfl

/-- A place and all places above it, the nearest first. -/
def upwards (place : List Bytes) : List (List Bytes) :=
  (List.range (place.length + 1)).reverse.map fun n => place.take n

theorem upwards_concat (place : List Bytes) (name : Bytes) :
    upwards (place ++ [name]) = (place ++ [name]) :: upwards place := by
  rw [upwards, List.length_append, List.length_singleton, List.range_succ, List.reverse_append,
    List.reverse_singleton, List.singleton_append, List.map_cons]
  refine congrArg₂ _ (List.take_of_length_le (by simp)) ?_
  refine List.map_congr_left fun n hn => ?_
  have hlt : n < place.length + 1 := List.mem_range.mp (List.mem_reverse.mp hn)
  exact List.take_append_of_le_length (by omega)

/-- The search from a directory ends at the nearest settings file, or at the root with none. -/
theorem search_upwards (hf : f.IsTree) {place : List Bytes}
    (hplace : f.at? place = some .directory) :
    (∃ dir, IsNearest f place dir ∧ search f (upwards place) = settled f dir) ∨
      ((∀ dir, dir <+: place → ¬ Holds f dir) ∧ search f (upwards place) = .ok ({}, none)) := by
  induction place using List.reverseRecOn with
  | nil =>
    have hroot : upwards [] = [[]] := rfl
    rw [hroot]
    by_cases hholds : Holds f []
    · left
      refine ⟨[], ⟨List.prefix_refl _, hholds, fun d hd _ => hd⟩, ?_⟩
      exact search_holding hf [] hplace hholds
    · right
      constructor
      · intro dir hdir
        rw [List.prefix_nil.mp hdir]
        exact hholds
      · rw [search_empty hf [] hplace hholds]
        rfl
  | append_singleton above name ih =>
    rw [upwards_concat]
    by_cases hholds : Holds f (above ++ [name])
    · left
      refine ⟨above ++ [name], ⟨List.prefix_refl _, hholds, fun d hd _ => hd⟩, ?_⟩
      exact search_holding hf _ hplace hholds
    rw [search_empty hf _ hplace hholds]
    have habove := hf.parent_directory hplace
    rw [List.dropLast_concat] at habove
    rcases ih habove with ⟨dir, hdir, hsearch⟩ | ⟨hnone, hsearch⟩
    · left
      refine ⟨dir, ⟨hdir.above.trans (List.prefix_append _ _), hdir.holds, ?_⟩, hsearch⟩
      intro d hd hdholds
      rcases List.prefix_concat_iff.mp hd with rfl | hd
      · exact absurd hdholds hholds
      · exact hdir.closest d hd hdholds
    · right
      refine ⟨?_, hsearch⟩
      intro d hd
      rcases List.prefix_concat_iff.mp hd with rfl | hd
      · exact hholds
      · exact hnone d hd

theorem find_eq_search (hf : f.IsTree) {path : Bytes} {place : List Bytes}
    (hpath : f.locate path = .ok place) : find f path = search f (upwards place) := by
  rw [find, hf.absolute_eq hpath]
  rfl

/-- From a file the search does not get past its first step. -/
theorem find_file (hf : f.IsTree) {path content : Bytes} {place : List Bytes}
    (hpath : f.locate path = .ok place) (hplace : f.at? place = some (.file content)) :
    find f path =
      .error (.file ⟨"open", Path.ofElements (place ++ [fileName]), .notDirectory⟩) := by
  have hne : place ≠ [] := by
    rintro rfl
    cases hplace
  obtain ⟨above, name, rfl⟩ := (List.eq_nil_or_concat' place).resolve_left hne
  have hread := hf.find_below_file hplace isProper_fileName
  have hload : load f (Path.ofElements (above ++ [name] ++ [fileName])) =
      .error (.file ⟨"open", Path.ofElements (above ++ [name] ++ [fileName]), .notDirectory⟩) := by
    rw [load, Files.read, hread]
  rw [find_eq_search hf hpath, upwards_concat]
  simp only [search, hload, LoadError.isMissing]
  rfl

/-- **The nearest settings count.** For a path to a directory, the settings are those of the file in
    the nearest directory at it or above it that holds one, together with the file's path, and an
    error when that file is none or cannot be used; without such a file they are the defaults. For a
    path to a file, they cannot be looked for. -/
theorem find_nearest (hf : f.IsTree) {path : Bytes} {place : List Bytes}
    (hpath : f.locate path = .ok place) :
    (f.at? place = some .directory →
      (∃ dir, IsNearest f place dir ∧ find f path = settled f dir) ∨
        ((∀ dir, dir <+: place → ¬ Holds f dir) ∧ find f path = .ok ({}, none))) ∧
      ∀ content, f.at? place = some (.file content) →
        find f path =
          .error (.file ⟨"open", Path.ofElements (place ++ [fileName]), .notDirectory⟩) := by
  constructor
  · intro hplace
    rw [find_eq_search hf hpath]
    exact search_upwards hf hplace
  · intro content hplace
    exact find_file hf hpath hplace

/-- A directory with settings of its own, below another with settings and beside a file. -/
def nestedTree : Files :=
  { cwd := ["w"]
    entries :=
      [(["w"], .directory), (["w", "jnicall.yaml"], .file "package: me.outer\n"),
        (["w", "a"], .directory), (["w", "a", "jnicall.yaml"], .file "package: me.inner\n"),
        (["w", "a", "b"], .directory), (["w", "c.go"], .file "package c\n")] }

theorem find_nearest_inner :
    nestedTree.IsTree ∧ nestedTree.locate "a/b" = .ok ["w", "a", "b"] ∧
      nestedTree.at? ["w", "a", "b"] = some .directory ∧
      find nestedTree "a/b" = settled nestedTree ["w", "a"] := by
  have htree : nestedTree.IsTree := by decide
  have hpath : nestedTree.locate "a/b" = .ok ["w", "a", "b"] := by decide
  have hplace : nestedTree.at? ["w", "a", "b"] = some .directory := by decide
  have hinner : Holds nestedTree ["w", "a"] := by decide
  refine ⟨htree, hpath, hplace, ?_⟩
  rcases (find_nearest htree hpath).1 hplace with ⟨dir, hdir, hfind⟩ | ⟨hnone, -⟩
  · have hbelow := hdir.closest ["w", "a"] (by decide) hinner
    have habove : dir <+: ([("w" : Bytes), "a"] ++ [("b" : Bytes)]) := hdir.above
    rcases List.prefix_concat_iff.mp habove with rfl | habove
    · exact absurd hdir.holds (by decide)
    · rw [List.IsPrefix.eq_of_length_le habove hbelow.length_le] at hfind
      exact hfind
  · exact absurd hinner (hnone _ (by decide))

/-- From a file in a directory with settings, the settings are not found. -/
theorem find_fails_from_file :
    nestedTree.IsTree ∧ nestedTree.locate "c.go" = .ok ["w", "c.go"] ∧
      IsNearest nestedTree ["w", "c.go"] ["w"] ∧
      find nestedTree "c.go" ≠ settled nestedTree ["w"] := by
  have htree : nestedTree.IsTree := by decide
  have hpath : nestedTree.locate "c.go" = .ok ["w", "c.go"] := by decide
  have hplace : nestedTree.at? ["w", "c.go"] = some (.file "package c\n") := by decide
  have houter : nestedTree.at? ([("w" : Bytes)] ++ [fileName]) =
      some (.file "package: me.outer\n") := by
    decide
  refine ⟨htree, hpath, ⟨by decide, by decide, ?_⟩, ?_⟩
  · intro d hd hholds
    have habove : d <+: [("w" : Bytes)] ++ [("c.go" : Bytes)] := hd
    rcases List.prefix_concat_iff.mp habove with rfl | habove
    · exact absurd hholds (by decide)
    · exact habove
  · rw [find_file htree hpath hplace, settled, houter]
    cases hparse : parse "package: me.outer\n" with
    | ok s => simp [hparse]
    | error e => simp [hparse]

end Settings
end BridgeCall
