/-
  BridgeCall/Proofs/Marker/Schedule.lean
  ======================================
  **The order in which twins are made does not matter.**  The work on a file is
  three steps: its text is rewritten with what the registry says then, the twin is
  compared with the file that is there, and a stale twin is written.  A schedule
  interleaves the steps of all files in any way (`Generate.Step`).

  When all twins stand at different places, the steps on one file say nothing about
  the others, so that in every world of every schedule finishing the work on a file
  gives what it gives at the start (`Generate.Settled`).  Hence all schedules give
  the same answer and leave the same files, and one of them is the run that takes
  the files one after the other (`Generate.outputs_reachable`).
-/
import BridgeCall.Marker.Generate
import BridgeCall.Proofs.Files.Tree
import Mathlib.Logic.Relation

namespace BridgeCall

/-- Whether stale twins are written. -/
def Mode.writes (mode : Mode) : Bool := !(mode.dryRun || mode.check)

namespace Generate

/-- A tagged file with the problems of its package directives. -/
abbrev Job := Scan × List Diagnostic

variable {settings : Settings} {mode : Mode} {r : Registry} {f g : Files}

/-! ### The steps of a file -/

def Job.target (settings : Settings) (j : Job) : Bytes := twinName j.1.name settings.suffix

/-- What is reported on a file, as long as nothing is known about its twin. -/
def Job.report (settings : Settings) (j : Job) (w : Rewritten) : Output :=
  { source := j.1.name, target := j.target settings, problems := j.2 ++ w.problems }

/-- Whether a twin is stale. -/
def compare (f : Files) (target data : Bytes) : Except GenerateError Bool :=
  match f.read target with
  | .ok old => .ok (old != data)
  | .error e => if e.problem = .missing then .ok true else .error (.file e)

/-- Writes a twin that is stale. -/
def deliver (mode : Mode) (f : Files) (target data : Bytes) (stale : Bool) :
    Except GenerateError (Bool × Files) :=
  if mode.dryRun || mode.check || !stale then .ok (stale, f)
  else match f.write target data with
    | .ok f => .ok (true, f)
    | .error e => .error (.write target e)

/-- A delivery keeps what is known about the twin. It leaves the files as they are, or writes. -/
theorem deliver_cases {target data : Bytes} {stale st : Bool}
    (h : deliver mode f target data stale = .ok (st, g)) :
    st = stale ∧ (g = f ∧ (mode.writes = true → stale = false)
      ∨ mode.writes = true ∧ f.write target data = .ok g) := by
  unfold deliver at h
  split at h
  · rename_i hidle
    cases h
    refine ⟨rfl, .inl ⟨rfl, fun hwrites => ?_⟩⟩
    simp only [Mode.writes, Bool.not_eq_true'] at hwrites
    simpa [hwrites] using hidle
  · rename_i hbusy
    simp only [Bool.or_eq_true, not_or, Bool.not_eq_true, Bool.not_eq_false'] at hbusy
    obtain ⟨⟨hdry, hcheck⟩, hstale⟩ := hbusy
    split at h
    · cases h
      exact ⟨hstale.symm, .inr ⟨by simp [Mode.writes, hdry, hcheck], ‹_›⟩⟩
    · cases h

theorem emit_eq (mode : Mode) (f : Files) (target data : Bytes) :
    emit mode f target data = (compare f target data).bind (deliver mode f target data) := by
  unfold emit compare
  cases f.read target with
  | ok old => rfl
  | error e =>
    dsimp only
    split <;> rfl

theorem emit_eq_ok {target data : Bytes} {st : Bool} (h : emit mode f target data = .ok (st, g)) :
    ∃ stale, compare f target data = .ok stale ∧ deliver mode f target data stale = .ok (st, g) := by
  rw [emit_eq] at h
  cases hcompare : compare f target data with
  | error e =>
    rw [hcompare] at h
    cases h
  | ok stale =>
    rw [hcompare] at h
    exact ⟨stale, rfl, h⟩

/-- The answer on a file whose twin was taken care of. -/
def Job.answer (settings : Settings) (j : Job) (w : Rewritten) (data : Bytes) (f : Files) :
    Except GenerateError (Bool × Files) → Except GenerateError Output × Files
  | .ok (stale, f) => (.ok { j.report settings w with data := some data, stale }, f)
  | .error e => (.error e, f)

/-- How far the work on a file is. -/
inductive Stage where
  | waiting
  | rewritten (w : Rewritten)
  | compared (w : Rewritten) (data : Bytes) (stale : Bool)
  | done (answer : Except GenerateError Output)

/-- One step of the work on a file. -/
def advance (settings : Settings) (mode : Mode) (r : Registry) (f : Files) (j : Job) :
    Stage → Option (Stage × Files)
  | .waiting => some (.rewritten (j.1.rewrite settings r), f)
  | .rewritten w =>
    match w.text with
    | none => some (.done (.ok (j.report settings w)), f)
    | some data =>
      if !(j.2 ++ w.problems).isEmpty then some (.done (.ok (j.report settings w)), f)
      else match compare f (j.target settings) data with
        | .ok stale => some (.compared w data stale, f)
        | .error e => some (.done (.error e), f)
  | .compared w data stale =>
    let (answer, f) := j.answer settings w data f (deliver mode f (j.target settings) data stale)
    some (.done answer, f)
  | .done _ => none

/-- The rest of the work on a file, without a break. -/
def finish (settings : Settings) (mode : Mode) (r : Registry) (f : Files) (j : Job) :
    Stage → Except GenerateError Output × Files
  | .waiting => output settings mode r f j.1 j.2
  | .rewritten w =>
    match w.text with
    | none => (.ok (j.report settings w), f)
    | some data =>
      if !(j.2 ++ w.problems).isEmpty then (.ok (j.report settings w), f)
      else j.answer settings w data f (emit mode f (j.target settings) data)
  | .compared w data stale =>
    j.answer settings w data f (deliver mode f (j.target settings) data stale)
  | .done answer => (answer, f)

theorem output_eq_finish (settings : Settings) (mode : Mode) (r : Registry) (f : Files) (j : Job) :
    output settings mode r f j.1 j.2
      = finish settings mode r f j (.rewritten (j.1.rewrite settings r)) := by
  unfold output
  simp only [finish, Job.report, Job.target]
  cases (j.1.rewrite settings r).text with
  | none => rfl
  | some data =>
    dsimp only
    split
    · rfl
    · cases emit mode f (twinName j.1.name settings.suffix) data <;> rfl

/-- What a step can do. -/
inductive Advances (settings : Settings) (mode : Mode) (r : Registry) (f : Files) (j : Job) :
    Stage → Stage → Files → Prop
  | rewrite : Advances settings mode r f j .waiting (.rewritten (j.1.rewrite settings r)) f
  | stop {w : Rewritten} (h : w.text = none ∨ j.2 ++ w.problems ≠ []) :
      Advances settings mode r f j (.rewritten w) (.done (.ok (j.report settings w))) f
  | compare {w : Rewritten} {data : Bytes} {stale : Bool} (htext : w.text = some data)
      (hclean : j.2 ++ w.problems = []) (h : compare f (j.target settings) data = .ok stale) :
      Advances settings mode r f j (.rewritten w) (.compared w data stale) f
  | fail {w : Rewritten} {data : Bytes} {e : GenerateError} (htext : w.text = some data)
      (hclean : j.2 ++ w.problems = []) (h : compare f (j.target settings) data = .error e) :
      Advances settings mode r f j (.rewritten w) (.done (.error e)) f
  | deliver {w : Rewritten} {data : Bytes} {stale st : Bool} {g : Files}
      (h : deliver mode f (j.target settings) data stale = .ok (st, g)) :
      Advances settings mode r f j (.compared w data stale)
        (.done (.ok { j.report settings w with data := some data, stale := st })) g
  | abandon {w : Rewritten} {data : Bytes} {stale : Bool} {e : GenerateError}
      (h : deliver mode f (j.target settings) data stale = .error e) :
      Advances settings mode r f j (.compared w data stale) (.done (.error e)) f

theorem advances {j : Job} {stage stage' : Stage}
    (h : advance settings mode r f j stage = some (stage', g)) :
    Advances settings mode r f j stage stage' g := by
  cases stage with
  | waiting =>
    cases h
    exact .rewrite
  | rewritten w =>
    simp only [advance] at h
    split at h
    · cases h
      exact .stop (.inl ‹_›)
    · split at h
      · cases h
        exact .stop (.inr (by simpa using ‹(!(j.2 ++ w.problems).isEmpty) = true›))
      · have hclean : j.2 ++ w.problems = [] := by
          simpa using ‹¬(!(j.2 ++ w.problems).isEmpty) = true›
        split at h
        · cases h
          exact .compare ‹_› hclean ‹_›
        · cases h
          exact .fail ‹_› hclean ‹_›
  | compared w data stale =>
    simp only [advance] at h
    cases hdeliver : deliver mode f (j.target settings) data stale with
    | error e =>
      rw [hdeliver] at h
      cases h
      exact .abandon hdeliver
    | ok delivered =>
      rw [hdeliver] at h
      cases h
      exact .deliver hdeliver
  | done answer => cases h

/-- A step leaves the same work to do. -/
theorem finish_advance {j : Job} {stage stage' : Stage}
    (h : advance settings mode r f j stage = some (stage', g)) :
    finish settings mode r g j stage' = finish settings mode r f j stage := by
  cases advances h with
  | rewrite => exact (output_eq_finish settings mode r f j).symm
  | stop hstop =>
    simp only [finish]
    split
    · rfl
    · rw [if_pos]
      rcases hstop with hnone | hproblems
      · simp_all
      · simpa using hproblems
  | compare htext hclean hcompare =>
    simp [finish, htext, hclean, emit_eq, hcompare, Except.bind]
  | fail htext hclean hcompare =>
    simp [finish, htext, hclean, emit_eq, hcompare, Except.bind, Job.answer]
  | deliver hdeliver => simp [finish, hdeliver, Job.answer]
  | abandon hdeliver => simp [finish, hdeliver, Job.answer]

/-- A step changes nothing but the place of the twin, and only where twins are written. -/
theorem advance_files {j : Job} {stage stage' : Stage}
    (h : advance settings mode r f j stage = some (stage', g)) :
    g = f ∨ mode.writes = true ∧ ∃ data, f.write (j.target settings) data = .ok g := by
  cases advances h with
  | rewrite => exact .inl rfl
  | stop _ => exact .inl rfl
  | compare _ _ _ => exact .inl rfl
  | fail _ _ _ => exact .inl rfl
  | deliver hdeliver =>
    obtain ⟨-, ⟨hidle, -⟩ | ⟨hwrites, hwrite⟩⟩ := deliver_cases hdeliver
    · exact .inl hidle
    · exact .inr ⟨hwrites, _, hwrite⟩
  | abandon _ => exact .inl rfl

theorem advance_sameDirs {j : Job} {stage stage' : Stage}
    (h : advance settings mode r f j stage = some (stage', g)) : f.SameDirs g := by
  rcases advance_files h with rfl | ⟨-, data, hwrite⟩
  · exact .refl g
  · obtain ⟨q, -, hfree, -, rfl⟩ := Files.write_eq_ok_iff.mp hwrite
    exact Files.sameDirs_put hfree data

/-! ### Files that are alike for a twin -/

/-- Files in which the same becomes of a twin: the directories are the same, and so is what stands
    where the twin belongs; they are the same files when twins are not written. -/
structure Alike (mode : Mode) (target : Bytes) (f g : Files) : Prop where
  dirs : f.SameDirs g
  here : ∀ p, f.locate target = .ok p → g.at? p = f.at? p
  idle : mode.writes = false → g = f

variable {target data : Bytes}

theorem Alike.symm (h : Alike mode target f g) : Alike mode target g f where
  dirs := h.dirs.symm
  here p hp := (h.here p (h.dirs.locate.mp hp)).symm
  idle hw := (h.idle hw).symm

theorem deliver_alike {stale st : Bool} {f' : Files} (h : Alike mode target f g)
    (hf : deliver mode f target data stale = .ok (st, f')) :
    ∃ g', deliver mode g target data stale = .ok (st, g')
      ∧ ∀ p, f.locate target = .ok p → g'.at? p = f'.at? p := by
  unfold deliver at hf ⊢
  split at hf
  · cases hf
    exact ⟨g, if_pos ‹_›, h.here⟩
  · rw [if_neg ‹_›]
    split at hf
    · rename_i hwrite
      cases hf
      obtain ⟨p, hlocate, hfree, hparent, rfl⟩ := Files.write_eq_ok_iff.mp hwrite
      have hne := Files.ne_nil_of_free hfree
      have hg : g.write target data = .ok (g.put p (.file data)) := by
        refine Files.write_eq_ok_iff.mpr ⟨p, h.dirs.locate.mpr hlocate, ?_, ?_, rfl⟩
        · rwa [h.here p hlocate]
        · exact (h.dirs.directory _).mpr hparent
      refine ⟨g.put p (.file data), by rw [hg], fun p' hp' => ?_⟩
      obtain rfl : p' = p := by simpa [hlocate] using hp'.symm
      rw [Files.at?_put g hne, Files.at?_put f hne, if_pos rfl, if_pos rfl]
    · cases hf

theorem compare_alike {p : List Bytes} (h : Alike mode target f g)
    (hp : f.locate target = .ok p) : compare g target data = compare f target data := by
  have hread : g.read target = f.read target := by
    rw [Files.read, Files.read, Files.find_of_locate hp,
      Files.find_of_locate (h.dirs.locate.mpr hp), h.here p hp]
  rw [compare, compare, hread]

theorem emit_alike {st : Bool} {f' : Files} (h : Alike mode target f g)
    (hf : emit mode f target data = .ok (st, f')) :
    ∃ g', emit mode g target data = .ok (st, g')
      ∧ ∀ p, f.locate target = .ok p → g'.at? p = f'.at? p := by
  by_cases hw : mode.writes = true
  · obtain ⟨stale, hcompare, hdeliver⟩ := emit_eq_ok hf
    -- Either the twin was read, or it is written: its path leads somewhere.
    have hlocated : ∃ p, f.locate target = .ok p := by
      cases stale with
      | false =>
        rw [compare] at hcompare
        split at hcompare
        · obtain ⟨p, hp, -⟩ := Files.read_eq_ok_iff.mp ‹_›
          exact ⟨p, hp⟩
        · split at hcompare <;> cases hcompare
      | true =>
        obtain ⟨-, ⟨-, hidle⟩ | ⟨-, hwrite⟩⟩ := deliver_cases hdeliver
        · cases hidle hw
        · obtain ⟨p, hp, -⟩ := Files.write_eq_ok_iff.mp hwrite
          exact ⟨p, hp⟩
    obtain ⟨p, hp⟩ := hlocated
    rw [emit_eq, compare_alike h hp, hcompare]
    exact deliver_alike h hdeliver
  · rw [h.idle (by simpa using hw)]
    exact ⟨f', hf, fun _ _ => rfl⟩

/-- In files that are alike for its twin, finishing a file gives the same. -/
theorem finish_alike {j : Job} (stage : Stage) (h : Alike mode (j.target settings) f g) :
    (finish settings mode r g j stage).1.toOption = (finish settings mode r f j stage).1.toOption
      ∧ ∀ p, f.locate (j.target settings) = .ok p →
        (finish settings mode r g j stage).2.at? p = (finish settings mode r f j stage).2.at? p := by
  have hemitted : ∀ (w : Rewritten) (data : Bytes) (a b : Except GenerateError (Bool × Files)),
      (∀ st f', a = .ok (st, f') → ∃ g', b = .ok (st, g')
        ∧ ∀ p, f.locate (j.target settings) = .ok p → g'.at? p = f'.at? p) →
      (∀ st g', b = .ok (st, g') → ∃ f', a = .ok (st, f')) →
      (j.answer settings w data g b).1.toOption = (j.answer settings w data f a).1.toOption
        ∧ ∀ p, f.locate (j.target settings) = .ok p →
          (j.answer settings w data g b).2.at? p = (j.answer settings w data f a).2.at? p := by
    intro w data a b hforth hback
    cases a with
    | ok a =>
      obtain ⟨g', rfl, hat⟩ := hforth a.1 a.2 rfl
      exact ⟨rfl, hat⟩
    | error e =>
      cases b with
      | ok b =>
        obtain ⟨f', hf'⟩ := hback b.1 b.2 rfl
        cases hf'
      | error e' => exact ⟨rfl, h.here⟩
  have hrewritten : ∀ w : Rewritten,
      (finish settings mode r g j (.rewritten w)).1.toOption
          = (finish settings mode r f j (.rewritten w)).1.toOption
        ∧ ∀ p, f.locate (j.target settings) = .ok p →
          (finish settings mode r g j (.rewritten w)).2.at? p
            = (finish settings mode r f j (.rewritten w)).2.at? p := by
    intro w
    simp only [finish]
    split
    · exact ⟨rfl, h.here⟩
    · split
      · exact ⟨rfl, h.here⟩
      · refine hemitted w _ _ _ (fun st f' => emit_alike h) fun st g' hg => ?_
        obtain ⟨f', hf', -⟩ := emit_alike h.symm hg
        exact ⟨f', hf'⟩
  cases stage with
  | waiting =>
    have hforth := hrewritten (j.1.rewrite settings r)
    rw [← output_eq_finish, ← output_eq_finish] at hforth
    exact hforth
  | rewritten w => exact hrewritten w
  | compared w data stale =>
    refine hemitted w data _ _ (fun st f' => deliver_alike h) fun st g' hg => ?_
    obtain ⟨f', hf', -⟩ := deliver_alike h.symm hg
    exact ⟨f', hf'⟩
  | done answer => exact ⟨rfl, h.here⟩

/-! ### Schedules -/

/-- A run under way: the registry, the files, and how far the work on every tagged file is. -/
structure World where
  registry : Registry
  files : Files
  workers : List (Job × Stage)

/-- One step on any one of the files. -/
inductive Step (settings : Settings) (mode : Mode) : World → World → Prop
  | work {r : Registry} {f f' : Files} {before after : List (Job × Stage)} {j : Job}
      {stage stage' : Stage} (h : advance settings mode r f j stage = some (stage', f')) :
      Step settings mode ⟨r, f, before ++ (j, stage) :: after⟩
        ⟨r, f', before ++ (j, stage') :: after⟩

/-- The worlds that the schedules lead to from a world. -/
abbrev Leads (settings : Settings) (mode : Mode) : World → World → Prop :=
  Relation.ReflTransGen (Step settings mode)

def World.start (r : Registry) (f : Files) (jobs : List Job) : World :=
  ⟨r, f, jobs.map fun j => (j, .waiting)⟩

/-- The output of a file, when there is an answer and it is no error. -/
def Stage.output? : Stage → Option Output
  | .done (.ok out) => some out
  | _ => none

def World.Finished (w : World) : Prop := ∀ k ∈ w.workers, ∃ answer, k.2 = .done answer

/-- The outputs of all files, when none of them has failed. -/
def World.outputs? (w : World) : Option (List Output) :=
  (w.workers.map fun k => k.2.output?).mapM id

/-- The number of steps that the work on a file takes at most. -/
def Stage.rank : Stage → Nat
  | .waiting => 3
  | .rewritten _ => 2
  | .compared .. => 1
  | .done _ => 0

theorem advance_rank {j : Job} {stage stage' : Stage}
    (h : advance settings mode r f j stage = some (stage', g)) : stage'.rank < stage.rank := by
  cases advances h <;> simp [Stage.rank]

theorem advance_eq_none {j : Job} {stage : Stage}
    (h : advance settings mode r f j stage = none) : ∃ answer, stage = .done answer := by
  cases stage with
  | waiting => cases h
  | rewritten w =>
    simp only [advance] at h
    split at h
    · cases h
    · split at h
      · cases h
      · split at h <;> cases h
  | compared w data stale => cases h
  | done answer => exact ⟨answer, rfl⟩

/-- One of the schedules finishes the work on a file without a break. -/
theorem finish_leads {before after : List (Job × Stage)} {j : Job} (stage : Stage) :
    Leads settings mode ⟨r, f, before ++ (j, stage) :: after⟩
      ⟨r, (finish settings mode r f j stage).2,
        before ++ (j, .done (finish settings mode r f j stage).1) :: after⟩ := by
  induction hn : stage.rank using Nat.strong_induction_on generalizing f stage with
  | _ n ih =>
    cases hstep : advance settings mode r f j stage with
    | none =>
      obtain ⟨answer, rfl⟩ := advance_eq_none hstep
      exact .refl
    | some next =>
      obtain ⟨stage', f'⟩ := next
      rw [← finish_advance hstep]
      exact .head (.work hstep) (ih _ (hn ▸ advance_rank hstep) stage' rfl)

/-- No schedule gets stuck. -/
theorem exists_finished (w : World) : ∃ w', Leads settings mode w w' ∧ w'.Finished := by
  obtain ⟨r, f, workers⟩ := w
  have hfrom : ∀ before : List (Job × Stage), (∀ k ∈ before, ∃ answer, k.2 = .done answer) →
      ∃ w', Leads settings mode ⟨r, f, before ++ workers⟩ w' ∧ w'.Finished := by
    induction workers generalizing f with
    | nil => exact fun before h => ⟨_, .refl, by simpa [World.Finished] using h⟩
    | cons k workers ih =>
      intro before h
      obtain ⟨j, stage⟩ := k
      have hfirst : Leads settings mode ⟨r, f, before ++ (j, stage) :: workers⟩ _ :=
        finish_leads stage
      obtain ⟨w', hrest, hfinished⟩ := ih (f := (finish settings mode r f j stage).2)
        (before ++ [(j, Stage.done (finish settings mode r f j stage).1)]) (by
          intro k hk
          rcases List.mem_append.mp hk with hk | hk
          · exact h k hk
          · obtain rfl := List.mem_singleton.mp hk
            exact ⟨_, rfl⟩)
      rw [List.append_assoc, List.singleton_append] at hrest
      exact ⟨w', hfirst.trans hrest, hfinished⟩
  exact hfrom [] (by simp)

/-- The run that takes the files one after the other is one of the schedules. -/
theorem outputs_reachable (settings : Settings) (mode : Mode) (r : Registry) (f : Files)
    (jobs : List Job) :
    ∃ w, Leads settings mode (.start r f jobs) w ∧ w.Finished
      ∧ w.outputs? = (outputs settings mode r f jobs).1.toOption
      ∧ w.files = (outputs settings mode r f jobs).2 := by
  have hfrom : ∀ before : List (Job × Stage), ∃ after : List (Job × Stage),
      Leads settings mode ⟨r, f, before ++ jobs.map fun j => (j, Stage.waiting)⟩
          ⟨r, (outputs settings mode r f jobs).2, before ++ after⟩
        ∧ (∀ k ∈ after, ∃ answer, k.2 = .done answer)
        ∧ (after.map fun k => k.2.output?).mapM id
          = (outputs settings mode r f jobs).1.toOption := by
    induction jobs generalizing f with
    | nil => exact fun before => ⟨[], .refl, by simp, rfl⟩
    | cons j jobs ih =>
      intro before
      have hfirst : Leads settings mode
          ⟨r, f, before ++ (j, Stage.waiting) :: jobs.map fun j => (j, .waiting)⟩ _ :=
        finish_leads .waiting
      obtain ⟨after, hrest, hdone, houtputs⟩ := ih (finish settings mode r f j .waiting).2
        (before ++ [(j, Stage.done (finish settings mode r f j .waiting).1)])
      rw [List.append_assoc, List.append_assoc, List.singleton_append, List.singleton_append]
        at hrest
      refine ⟨(j, .done (finish settings mode r f j .waiting).1) :: after,
        hfirst.trans hrest, ?_, ?_⟩
      · intro k hk
        rcases List.mem_cons.mp hk with rfl | hk
        · exact ⟨_, rfl⟩
        · exact hdone k hk
      · rw [List.map_cons, List.mapM_cons, houtputs]
        simp only [finish, outputs, Stage.output?]
        cases (output settings mode r f j.1 j.2).1 with
        | error e => rfl
        | ok out =>
          cases (outputs settings mode r (output settings mode r f j.1 j.2).2 jobs).1 <;> rfl
  obtain ⟨after, hleads, hdone, houtputs⟩ := hfrom []
  exact ⟨_, hleads, hdone, houtputs, rfl⟩

theorem leads_sameDirs {w w' : World} (h : Leads settings mode w w') :
    w.files.SameDirs w'.files := by
  induction h with
  | refl => exact .refl _
  | tail _ hstep ih =>
    obtain ⟨hadvance⟩ := hstep
    exact ih.trans (advance_sameDirs hadvance)

/-! ### What all schedules have in common -/

/-- The twins stand at different places. -/
def Distinct (settings : Settings) (f : Files) (jobs : List Job) : Prop :=
  jobs.Pairwise fun i j => ∀ p, f.locate (i.target settings) = .ok p →
    f.locate (j.target settings) ≠ .ok p

/-- What holds in every world that a run leads to: finishing the work on a file gives what it gives
    at the start, and nothing is changed but the places of twins. -/
structure Settled (settings : Settings) (mode : Mode) (r : Registry) (f : Files) (jobs : List Job)
    (w : World) : Prop where
  registry : w.registry = r
  workers : w.workers.map Prod.fst = jobs
  dirs : f.SameDirs w.files
  idle : mode.writes = false → w.files = f
  answers : ∀ k ∈ w.workers, (finish settings mode r w.files k.1 k.2).1.toOption
    = (output settings mode r f k.1.1 k.1.2).1.toOption
  twins : ∀ k ∈ w.workers, ∀ p, f.locate (k.1.target settings) = .ok p →
    (finish settings mode r w.files k.1 k.2).2.at? p
      = (output settings mode r f k.1.1 k.1.2).2.at? p
  rest : ∀ p, (∀ j ∈ jobs, f.locate (j.target settings) ≠ .ok p) → w.files.at? p = f.at? p

variable {jobs : List Job} {w w' : World}

/-- Finishing the work on a file gives the same at two points of a run. -/
def Continues (settings : Settings) (mode : Mode) (r : Registry) (f g : Files) (old k : Job × Stage) :
    Prop :=
  old.1 = k.1
    ∧ (finish settings mode r g k.1 k.2).1.toOption = (finish settings mode r f old.1 old.2).1.toOption
    ∧ ∀ p, f.locate (k.1.target settings) = .ok p →
      (finish settings mode r g k.1 k.2).2.at? p = (finish settings mode r f old.1 old.2).2.at? p

theorem settled_start : Settled settings mode r f jobs (.start r f jobs) where
  registry := rfl
  workers := by simp [World.start, Function.comp_def]
  dirs := .refl f
  idle _ := rfl
  answers k hk := by
    obtain ⟨j, -, rfl⟩ := List.mem_map.mp hk
    rfl
  twins k hk p _ := by
    obtain ⟨j, -, rfl⟩ := List.mem_map.mp hk
    rfl
  rest _ _ := rfl

/-- A step keeps all of it, because what it writes is the twin of no other file. -/
theorem Settled.step (hdistinct : Distinct settings f jobs)
    (h : Settled settings mode r f jobs w) (hstep : Step settings mode w w') :
    Settled settings mode r f jobs w' := by
  obtain ⟨hadvance⟩ := hstep
  rename_i r₁ f₁ f₂ before after j stage stage'
  obtain rfl : r₁ = r := h.registry
  have hjobs : before.map Prod.fst ++ j :: after.map Prod.fst = jobs := by simpa using h.workers
  have hmem : j ∈ jobs := by simp [← hjobs]
  have hdirs := advance_sameDirs hadvance
  have helsewhere : ∀ p, f.locate (j.target settings) ≠ .ok p → f₂.at? p = f₁.at? p := by
    intro p hp
    rcases advance_files hadvance with rfl | ⟨-, data, hwrite⟩
    · rfl
    · obtain ⟨q, hq, hfree, -, rfl⟩ := Files.write_eq_ok_iff.mp hwrite
      have hne := Files.ne_nil_of_free hfree
      rw [Files.at?_put f₁ hne, if_neg]
      rintro rfl
      exact hp (h.dirs.locate.mp hq)
  have hother : ∀ k, k ∈ before ∨ k ∈ after → Alike mode (k.1.target settings) f₁ f₂ := by
    intro k hk
    refine ⟨hdirs, fun p hp => helsewhere p fun hpj => ?_, fun hw => ?_⟩
    · have hpk : f.locate (k.1.target settings) = .ok p := h.dirs.locate.mp hp
      rw [Distinct, ← hjobs, List.pairwise_append, List.pairwise_cons] at hdistinct
      obtain ⟨-, ⟨hafter, -⟩, hbefore⟩ := hdistinct
      rcases hk with hk | hk
      · exact hbefore k.1 (List.mem_map_of_mem hk) j List.mem_cons_self p hpk hpj
      · exact hafter k.1 (List.mem_map_of_mem hk) p hpj hpk
    · rcases advance_files hadvance with rfl | ⟨hwrites, -⟩
      · rfl
      · simp [hw] at hwrites
  have hkept : ∀ k ∈ before ++ (j, stage') :: after,
      ∃ old ∈ before ++ (j, stage) :: after, Continues settings mode r₁ f₁ f₂ old k := by
    intro k hk
    rw [List.mem_append, List.mem_cons] at hk
    rcases hk with hk | rfl | hk
    · exact ⟨k, by simp [hk], rfl, finish_alike k.2 (hother k (.inl hk))⟩
    · refine ⟨(j, stage), by simp, rfl, ?_⟩
      rw [finish_advance hadvance]
      exact ⟨rfl, fun _ _ => rfl⟩
    · exact ⟨k, by simp [hk], rfl, finish_alike k.2 (hother k (.inr hk))⟩
  constructor
  case registry => rfl
  case workers => simpa using hjobs
  case dirs => exact h.dirs.trans hdirs
  case idle =>
    intro hw
    rcases advance_files hadvance with rfl | ⟨hwrites, -⟩
    · exact h.idle hw
    · simp [hw] at hwrites
  case answers =>
    intro k hk
    obtain ⟨old, hold, heq, hanswer, -⟩ := hkept k hk
    rw [hanswer, ← heq]
    exact h.answers old hold
  case twins =>
    intro k hk p hp
    obtain ⟨old, hold, heq, -, htwin⟩ := hkept k hk
    rw [← heq] at hp htwin ⊢
    rw [htwin p (h.dirs.locate.mpr hp)]
    exact h.twins old hold p hp
  case rest =>
    intro p hp
    exact (helsewhere p (hp j hmem)).trans (h.rest p hp)

theorem settled_of_leads (hdistinct : Distinct settings f jobs)
    (h : Leads settings mode (.start r f jobs) w) : Settled settings mode r f jobs w := by
  induction h with
  | refl => exact settled_start
  | tail _ hstep ih => exact ih.step hdistinct hstep

/-- In a finished world the answers are those that each file has on its own. -/
theorem Settled.outputs?_eq (h : Settled settings mode r f jobs w) (hfinished : w.Finished) :
    w.outputs? = (jobs.map fun j => (output settings mode r f j.1 j.2).1.toOption).mapM id := by
  rw [World.outputs?, ← h.workers, List.map_map]
  congr 1
  refine List.map_congr_left fun k hk => ?_
  obtain ⟨answer, hdone⟩ := hfinished k hk
  have hanswer := h.answers k hk
  rw [hdone] at hanswer ⊢
  simp only [finish] at hanswer
  rw [Function.comp_apply, ← hanswer]
  cases answer <;> rfl

/-- In a finished world a twin is what it is when its file is taken on its own. -/
theorem Settled.at?_twin (h : Settled settings mode r f jobs w) (hfinished : w.Finished) {j : Job}
    (hj : j ∈ jobs) {p : List Bytes} (hp : f.locate (j.target settings) = .ok p) :
    w.files.at? p = (output settings mode r f j.1 j.2).2.at? p := by
  rw [← h.workers] at hj
  obtain ⟨k, hk, rfl⟩ := List.mem_map.mp hj
  obtain ⟨answer, hdone⟩ := hfinished k hk
  have htwin := h.twins k hk p hp
  rwa [hdone] at htwin

/-- All schedules end alike. -/
theorem finished_unique (hdistinct : Distinct settings f jobs)
    (h : Leads settings mode (.start r f jobs) w) (hw : w.Finished)
    (h' : Leads settings mode (.start r f jobs) w') (hw' : w'.Finished) :
    w.outputs? = w'.outputs? ∧ ∀ p, w.files.at? p = w'.files.at? p := by
  have hsettled := settled_of_leads hdistinct h
  have hsettled' := settled_of_leads hdistinct h'
  refine ⟨(hsettled.outputs?_eq hw).trans (hsettled'.outputs?_eq hw').symm, fun p => ?_⟩
  by_cases hp : ∃ j ∈ jobs, f.locate (j.target settings) = .ok p
  · obtain ⟨j, hj, hp⟩ := hp
    rw [hsettled.at?_twin hw hj hp, hsettled'.at?_twin hw' hj hp]
  · simp only [not_exists, not_and] at hp
    rw [hsettled.rest p hp, hsettled'.rest p hp]

end Generate
end BridgeCall
