import FrameLowering.Lowering.Batch
import FrameLowering.Proofs.ScratchLiveness
import Mathlib.Data.List.Forall2
import Mathlib.Logic.Relation

/-!
# Orders in which a file can be lowered

The functions of one group may be lowered in any order, and at the first failure the rest of
the group may be left alone. `Progress.Step` is the lowering of one function of a group,
`Progress.Runs` a whole file, group after group. `Batch.lower` takes the functions of a group
as they stand in the file, and is one of these runs (`exists_runs_lowerGroups`).

Main statement: every run succeeds exactly if each function can be lowered alone for its own
convention, and then leaves at each place what that gives (`grouping_keeps_results`).
The order of the reported lines is not part of it.
-/

namespace FrameLowering

/-! ## Steps and runs -/

/-- How far the lowering of a file has come. -/
structure Progress where
  jobs : List Job
  /-- Lowerings so far, by place in the file, with the target that was used. -/
  ran : List (Nat × Target) := []
  failure : Option Failure := none

namespace Job

/-- The job after its own target has lowered it. -/
def lowered (j : Job) : Job :=
  { j with proc := (j.target.lower j.proc).proc }

end Job

namespace Progress

/-- The places lowered so far. -/
def places (s : Progress) : List Nat :=
  s.ran.map Prod.fst

/-- Lowers the function at a place. Only the first failure counts. -/
def lowerAt (s : Progress) (target : Target) (i : Nat) (j : Job) : Progress where
  jobs := s.jobs.set i { j with proc := (target.lower j.proc).proc }
  ran := (i, target) :: s.ran
  failure := s.failure.or (target.lower j.proc).failure

/-- Some function of a group is lowered that was not lowered before. A function that is
already under way when another one fails is still lowered, so a failure stops no step. -/
inductive Step (named : Option Abi) (target : Target) : Progress → Progress → Prop where
  | lower {s : Progress} {i : Nat} {j : Job} (found : s.jobs[i]? = some j)
      (member : j.named = named) (waiting : i ∉ s.places) :
      Step named target s (s.lowerAt target i j)

/-- Every function of a group has been lowered. -/
def Finished (named : Option Abi) (s : Progress) : Prop :=
  ∀ i j, s.jobs[i]? = some j → j.named = named → i ∈ s.places

/-- The groups one after another, each in any order, up to a failure. -/
inductive Runs : List (Option Abi × Target) → Progress → Progress → Prop where
  | nil (s : Progress) : Runs [] s s
  | fail {named : Option Abi} {target : Target} {gs : List (Option Abi × Target)}
      {s s' : Progress} (steps : Relation.ReflTransGen (Step named target) s s')
      (failed : s'.failure ≠ none) : Runs ((named, target) :: gs) s s'
  | next {named : Option Abi} {target : Target} {gs : List (Option Abi × Target)}
      {s s' s'' : Progress} (steps : Relation.ReflTransGen (Step named target) s s')
      (fine : s'.failure = none) (finished : Finished named s') (rest : Runs gs s' s'') :
      Runs ((named, target) :: gs) s s''

/-! ## What a run keeps -/

/-- Where a run of some jobs can stand: what was lowered was lowered once and by its own
target, the rest is as it was. -/
structure Follows (js : List Job) (s : Progress) : Prop where
  length : s.jobs.length = js.length
  nodup : s.places.Nodup
  waiting : ∀ i, i ∉ s.places → s.jobs[i]? = js[i]?
  ran : ∀ i target, (i, target) ∈ s.ran →
    ∃ j, js[i]? = some j ∧ j.target = target ∧ s.jobs[i]? = some j.lowered
  failure : s.failure = none ↔
    ∀ i ∈ s.places, ∀ j, js[i]? = some j → (j.target.lower j.proc).failure = none

/-- Jobs whose convention decides their target. -/
def OneTarget (js : List Job) (named : Option Abi) (target : Target) : Prop :=
  ∀ j ∈ js, j.named = named → j.target = target

variable {js : List Job} {s s' : Progress} {named : Option Abi} {target : Target}
  {gs : List (Option Abi × Target)}

theorem mem_places {i : Nat} : i ∈ s.places ↔ ∃ target, (i, target) ∈ s.ran := by
  simp [places]

theorem follows_start (js : List Job) : Follows js { jobs := js } where
  length := rfl
  nodup := List.nodup_nil
  waiting := fun _ _ => rfl
  ran := fun _ _ h => absurd h List.not_mem_nil
  failure := by simp [places]

/-- The job at a place is the one it was, lowered or not. -/
theorem Follows.job_cases (h : Follows js s) {i : Nat} {j : Job} (hj : s.jobs[i]? = some j) :
    ∃ j₀, js[i]? = some j₀ ∧ j.named = j₀.named := by
  by_cases hi : i ∈ s.places
  · obtain ⟨target, hran⟩ := mem_places.1 hi
    obtain ⟨j₀, h₀, -, hl⟩ := h.ran i target hran
    have hjl : j = j₀.lowered := Option.some.inj (hj.symm.trans hl)
    exact ⟨j₀, h₀, by rw [hjl]; rfl⟩
  · exact ⟨j, (h.waiting i hi).symm.trans hj, rfl⟩

theorem Follows.step (h : Follows js s) (ht : OneTarget js named target)
    (hs : Step named target s s') : Follows js s' := by
  cases hs with
  | @lower i j found member waiting =>
    -- the job has not been touched, so its own target is the target of the group
    have hj : js[i]? = some j := (h.waiting i waiting).symm.trans found
    have htarget : j.target = target := ht j (List.mem_of_getElem? hj) member
    have hplaces : (s.lowerAt target i j).places = i :: s.places := rfl
    have hi : i < s.jobs.length := (List.getElem?_eq_some_iff.1 found).1
    refine ⟨by simp [lowerAt, h.length], ?_, ?_, ?_, ?_⟩
    · rw [hplaces]
      exact List.nodup_cons.2 ⟨waiting, h.nodup⟩
    · intro k hk
      rw [hplaces, List.mem_cons, not_or] at hk
      have hne : i ≠ k := fun e => hk.1 e.symm
      simp only [lowerAt, List.getElem?_set_ne hne]
      exact h.waiting k hk.2
    · intro k u hmem
      rcases List.mem_cons.1 hmem with heq | hold
      · obtain ⟨rfl, rfl⟩ := Prod.mk.inj heq
        refine ⟨j, hj, htarget, ?_⟩
        simp only [lowerAt, List.getElem?_set_self hi, Job.lowered, htarget]
      · obtain ⟨j₀, h₀, hu, hl⟩ := h.ran k u hold
        have hne : i ≠ k := by
          rintro rfl
          exact waiting (mem_places.2 ⟨u, hold⟩)
        refine ⟨j₀, h₀, hu, ?_⟩
        simpa only [lowerAt, List.getElem?_set_ne hne] using hl
    · rw [hplaces]
      simp only [lowerAt, Option.or_eq_none_iff, h.failure, List.forall_mem_cons, hj,
        Option.some.injEq, forall_eq', htarget]
      exact and_comm

theorem Follows.steps (h : Follows js s) (ht : OneTarget js named target)
    (hs : Relation.ReflTransGen (Step named target) s s') : Follows js s' := by
  induction hs with
  | refl => exact h
  | tail _ hstep ih => exact ih.step ht hstep

theorem Follows.runs (h : Follows js s) (ht : ∀ g ∈ gs, OneTarget js g.1 g.2)
    (hr : Runs gs s s') : Follows js s' := by
  induction hr with
  | nil => exact h
  | fail steps => exact h.steps (ht _ List.mem_cons_self) steps
  | next steps _ _ _ ih =>
    exact ih (h.steps (ht _ List.mem_cons_self) steps) fun g hg => ht g (List.mem_cons_of_mem _ hg)

/-- Nothing that was lowered is forgotten. -/
theorem places_subset_of_steps (hs : Relation.ReflTransGen (Step named target) s s') :
    s.places ⊆ s'.places := by
  induction hs with
  | refl => exact List.Subset.refl _
  | tail _ hstep ih =>
    cases hstep with
    | lower => exact fun i hi => List.mem_cons_of_mem _ (ih hi)

theorem places_subset_of_runs (hr : Runs gs s s') : s.places ⊆ s'.places := by
  induction hr with
  | nil => exact List.Subset.refl _
  | fail steps => exact places_subset_of_steps steps
  | next steps _ _ _ ih => exact fun i hi => ih (places_subset_of_steps steps hi)

/-- A run without failure lowers every function of each of its groups. -/
theorem Follows.mem_places_of_runs (h : Follows js s) (ht : ∀ g ∈ gs, OneTarget js g.1 g.2)
    (hr : Runs gs s s') (hok : s'.failure = none) {i : Nat} {j : Job} (hj : js[i]? = some j)
    (hg : j.named ∈ gs.map Prod.fst) : i ∈ s'.places := by
  induction hr with
  | nil => simp at hg
  | fail _ failed => exact absurd hok failed
  | @next named target gs s s' s'' steps _ finished rest ih =>
    have hnow : Follows js s' := h.steps (ht _ List.mem_cons_self) steps
    have hrest : ∀ g ∈ gs, OneTarget js g.1 g.2 := fun g hg => ht g (List.mem_cons_of_mem _ hg)
    rcases List.mem_cons.1 hg with hhere | hlater
    · apply places_subset_of_runs rest
      by_contra hi
      exact hi (finished i j ((hnow.waiting i hi).trans hj) hhere)
    · exact ih hnow hrest hok hlater

end Progress

/-! ## The jobs of a file -/

namespace Job

variable {given : Option Abi} {config : Config} {ds : List Described} {js : List Job}

/-- The job made for a function, before anything is lowered. -/
def Makes (given : Option Abi) (config : Config) (d : Described) (j : Job) : Prop :=
  j.named = given.or d.abi ∧ j.proc = d.proc ∧
    Target.ofAbi ((given.or d.abi).getD Target.defaultAbi) config = .ok j.target

theorem ofDescribed_eq_ok_iff {d : Described} {j : Job} :
    ofDescribed given config d = .ok j ↔ Makes given config d j := by
  obtain ⟨named, target, proc⟩ := j
  simp only [ofDescribed, Makes]
  constructor
  · intro h
    split at h <;> cases h
    exact ⟨rfl, rfl, by assumption⟩
  · rintro ⟨rfl, rfl, h⟩
    rw [h]

theorem ofAll_eq_ok_iff :
    ofAll given config ds = .ok js ↔ List.Forall₂ (Makes given config) ds js := by
  induction ds generalizing js with
  | nil =>
    rw [List.forall₂_nil_left_iff]
    simp [ofAll, eq_comm]
  | cons d ds ih =>
    rw [ofAll, List.forall₂_cons_left_iff]
    constructor
    · intro h
      split at h
      · cases h
      · next j hj =>
        split at h
        · cases h
        · next js' hjs =>
          cases h
          exact ⟨j, js', ofDescribed_eq_ok_iff.1 hj, ih.1 hjs, rfl⟩
    · rintro ⟨j, js', hj, hjs, rfl⟩
      rw [ofDescribed_eq_ok_iff.2 hj, ih.2 hjs]

/-- There are jobs for a file if there is a target for each of its functions. -/
theorem exists_ofAll (h : ∀ d ∈ ds, ∃ target,
    Target.ofAbi ((given.or d.abi).getD Target.defaultAbi) config = .ok target) :
    ∃ js, ofAll given config ds = .ok js := by
  simp only [ofAll_eq_ok_iff]
  induction ds with
  | nil => exact ⟨[], .nil⟩
  | cons d ds ih =>
    obtain ⟨js, hjs⟩ := ih fun d' hd => h d' (List.mem_cons_of_mem _ hd)
    obtain ⟨target, ht⟩ := h d List.mem_cons_self
    exact ⟨⟨given.or d.abi, target, d.proc⟩ :: js, .cons ⟨rfl, rfl, ht⟩ hjs⟩

/-- The convention that was named decides the target. -/
theorem target_of_ofAll (h : ofAll given config ds = .ok js) {j : Job} (hj : j ∈ js) :
    Target.ofAbi (j.named.getD Target.defaultAbi) config = .ok j.target := by
  obtain ⟨i, hi⟩ := List.mem_iff_getElem?.1 hj
  have hall := ofAll_eq_ok_iff.1 h
  obtain ⟨d, hd⟩ : ∃ d, ds[i]? = some d := by
    have hlt : i < ds.length := hall.length_eq ▸ (List.getElem?_eq_some_iff.1 hi).1
    exact ⟨ds[i], List.getElem?_eq_getElem hlt⟩
  obtain ⟨hnamed, -, htarget⟩ := List.forall₂_iff_get.1 hall |>.2 i
    (List.getElem?_eq_some_iff.1 hd).1 (List.getElem?_eq_some_iff.1 hi).1
  simp only [List.get_eq_getElem, (List.getElem?_eq_some_iff.1 hi).2] at hnamed htarget
  rw [hnamed]
  exact htarget

/-- A group has the target of one of its jobs, and its convention was not seen before. -/
theorem of_mem_groups {seen : List (Option Abi)} {g : Option Abi × Target}
    (h : g ∈ groups seen js) : g.1 ∉ seen ∧ ∃ j ∈ js, j.named = g.1 ∧ j.target = g.2 := by
  induction js generalizing seen with
  | nil => simp [groups] at h
  | cons j js ih =>
    rw [groups] at h
    split at h
    · obtain ⟨hseen, j', hj', hfacts⟩ := ih h
      exact ⟨hseen, j', List.mem_cons_of_mem _ hj', hfacts⟩
    · next hnew =>
      rcases List.mem_cons.1 h with rfl | hlater
      · exact ⟨by simpa using hnew, j, List.mem_cons_self, rfl, rfl⟩
      · obtain ⟨hseen, j', hj', hfacts⟩ := ih hlater
        exact ⟨fun hg => hseen (List.mem_cons_of_mem _ hg), j', List.mem_cons_of_mem _ hj', hfacts⟩

theorem nodup_groups (seen : List (Option Abi)) (js : List Job) :
    ((groups seen js).map Prod.fst).Nodup := by
  induction js generalizing seen with
  | nil => exact List.nodup_nil
  | cons j js ih =>
    rw [groups]
    split
    · exact ih seen
    · refine List.nodup_cons.2 ⟨?_, ih _⟩
      intro hmem
      obtain ⟨g, hg, hname⟩ := List.mem_map.1 hmem
      exact (of_mem_groups hg).1 (hname ▸ List.mem_cons_self)

theorem named_mem_groups {seen : List (Option Abi)} {j : Job} (hj : j ∈ js)
    (hseen : j.named ∉ seen) : j.named ∈ (groups seen js).map Prod.fst := by
  induction js generalizing seen with
  | nil => cases hj
  | cons j' js ih =>
    rw [groups]
    rcases List.mem_cons.1 hj with rfl | hlater
    · rw [if_neg (by simpa using hseen)]
      exact List.mem_cons_self
    · split
      · exact ih hlater hseen
      · by_cases hsame : j.named = j'.named
        · rw [hsame]
          exact List.mem_cons_self
        · exact List.mem_cons_of_mem _ (ih hlater (by simp [hsame, hseen]))

theorem oneTarget_of_ofAll (h : ofAll given config ds = .ok js) :
    ∀ g ∈ groups [] js, Progress.OneTarget js g.1 g.2 := by
  intro g hg j hj hnamed
  obtain ⟨-, j', hj', hname', htarget'⟩ := of_mem_groups hg
  have h₁ := target_of_ofAll h hj
  have h₂ := target_of_ofAll h hj'
  rw [hnamed, ← hname', h₂] at h₁
  rw [← htarget', Except.ok.inj h₁]

end Job

/-! ## The order of the file is one of the orders -/

namespace Job

variable {named : Option Abi} {js : List Job}

theorem refill_nil (named : Option Abi) (js : List Job) : refill named js [] = js := by
  cases js <;> rfl

theorem refill_cons_self {j : Job} (h : j.named = named) (p : Procedure) (ps : List Procedure) :
    refill named (j :: js) (p :: ps) = { j with proc := p } :: refill named js ps := by
  rw [refill, if_pos h]

theorem refill_cons_other {j : Job} (h : j.named ≠ named) (ps : List Procedure) :
    refill named (j :: js) ps = j :: refill named js ps := by
  cases ps with
  | nil => simp only [refill_nil]
  | cons p ps => rw [refill, if_neg h]

/-- The functions of a group put back unchanged. -/
theorem refill_self (named : Option Abi) (js : List Job) :
    refill named js ((js.filter (·.named = named)).map (·.proc)) = js := by
  induction js with
  | nil => rfl
  | cons j js ih =>
    by_cases h : j.named = named
    · rw [List.filter_cons_of_pos (by simpa using h), List.map_cons, refill_cons_self h, ih]
    · rw [List.filter_cons_of_neg (by simpa using h), refill_cons_other h, ih]

end Job

namespace Progress

variable {named : Option Abi} {target : Target}

/-- What is lowered in some steps of a group belongs to the group. -/
theorem named_of_steps {s s' : Progress} {js : List Job} (h : Follows js s)
    (ht : OneTarget js named target) (hs : Relation.ReflTransGen (Step named target) s s')
    {i : Nat} (hi : i ∈ s'.places) :
    i ∈ s.places ∨ ∃ j, js[i]? = some j ∧ j.named = named := by
  induction hs with
  | refl => exact .inl hi
  | tail hsteps hstep ih =>
    cases hstep with
    | @lower k j found member waiting =>
      rcases List.mem_cons.1 hi with rfl | hold
      · exact .inr ⟨j, ((h.steps ht hsteps).waiting _ waiting).symm.trans found, member⟩
      · exact ih hold

/-- Lowering the group as it stands in the file, from a place on. The jobs before that place
are `done`. -/
theorem exists_steps_lowerAll (named : Option Abi) (target : Target) (done js : List Job)
    (s : Progress) (hjobs : s.jobs = done ++ js) (hfine : s.failure = none)
    (hwaiting : ∀ i j, js[i]? = some j → j.named = named → done.length + i ∉ s.places) :
    ∃ s', Relation.ReflTransGen (Step named target) s s' ∧
      s'.jobs = done ++ Job.refill named js
        (target.lowerAll ((js.filter (·.named = named)).map (·.proc))).1 ∧
      s'.failure = (target.lowerAll ((js.filter (·.named = named)).map (·.proc))).2.2 ∧
      (s'.failure = none → ∀ i j, js[i]? = some j → j.named = named →
        done.length + i ∈ s'.places) := by
  induction js generalizing done s with
  | nil => exact ⟨s, .refl, hjobs, hfine, by simp⟩
  | cons j js ih =>
    by_cases hj : j.named = named
    · have hfound : s.jobs[done.length]? = some j := by simp [hjobs]
      have hstep : Step named target s (s.lowerAt target done.length j) :=
        .lower hfound hj (by simpa using hwaiting 0 j rfl hj)
      rw [List.filter_cons_of_pos (by simpa using hj), List.map_cons]
      generalize hrest : (js.filter (·.named = named)).map (·.proc) = rest at ih ⊢
      rw [Target.lowerAll]
      -- a failure ends the group, and otherwise the job is done
      cases hfail : (target.lower j.proc).failure with
      | some f =>
        refine ⟨_, .single hstep, ?_, ?_, ?_⟩
        · simp only [lowerAt, hjobs, Job.refill_cons_self hj, ← hrest, Job.refill_self]
          simp
        · simp [lowerAt, hfine, hfail]
        · simp [lowerAt, hfine, hfail]
      | none =>
        set j' : Job := { j with proc := (target.lower j.proc).proc } with hj'
        have hnext : (s.lowerAt target done.length j).jobs = (done ++ [j']) ++ js := by
          simp [lowerAt, hjobs, hj']
        obtain ⟨s', hsteps, hjobs', hfail', hall⟩ := ih (done ++ [j'])
          (s.lowerAt target done.length j) hnext (by simp [lowerAt, hfine, hfail]) (by
            intro i k hk hkn
            have hold := hwaiting (i + 1) k (by simpa using hk) hkn
            simp only [places, lowerAt, List.map_cons, List.mem_cons, List.length_append,
              List.length_singleton] at hold ⊢
            rintro (heq | hmem)
            · omega
            · exact hold (by rwa [show done.length + (i + 1) = done.length + 1 + i by omega]))
        refine ⟨s', .head hstep hsteps, ?_, hfail', ?_⟩
        · rw [hjobs', Job.refill_cons_self hj]
          simp [hj']
        · intro hok i k hk hkn
          cases i with
          | zero =>
            exact places_subset_of_steps hsteps (by simp [places, lowerAt])
          | succ i =>
            have := hall hok i k (by simpa using hk) hkn
            simpa [Nat.add_assoc, Nat.add_comm 1] using this
    · -- a job of another group is passed over
      rw [List.filter_cons_of_neg (by simpa using hj)]
      obtain ⟨s', hsteps, hjobs', hfail', hall⟩ := ih (done ++ [j]) s (by simp [hjobs]) hfine (by
        intro i k hk hkn
        have hold := hwaiting (i + 1) k (by simpa using hk) hkn
        simpa [Nat.add_assoc, Nat.add_comm 1] using hold)
      refine ⟨s', hsteps, by simp [hjobs', Job.refill_cons_other hj], hfail', ?_⟩
      intro hok i k hk hkn
      cases i with
      | zero =>
        obtain rfl : j = k := by simpa using hk
        exact absurd hkn hj
      | succ i =>
        have := hall hok i k (by simpa using hk) hkn
        simpa [Nat.add_assoc, Nat.add_comm 1] using this

/-- Lowering the groups with the functions of each as they stand in the file is a run. -/
theorem exists_runs_lowerGroups {js : List Job} {gs : List (Option Abi × Target)} {s : Progress}
    (h : Follows js s) (ht : ∀ g ∈ gs, OneTarget js g.1 g.2) (hnodup : (gs.map Prod.fst).Nodup)
    (hfine : s.failure = none)
    (hwaiting : ∀ i ∈ s.places, ∀ j, js[i]? = some j → j.named ∉ gs.map Prod.fst) :
    ∃ s', Runs gs s s' ∧ s'.jobs = (Batch.lowerGroups gs s.jobs).jobs ∧
      s'.failure.map BatchError.failure = (Batch.lowerGroups gs s.jobs).failure := by
  induction gs generalizing s with
  | nil => exact ⟨s, .nil s, rfl, by simp [hfine, Batch.lowerGroups]⟩
  | cons g gs ih =>
    obtain ⟨named, target⟩ := g
    obtain ⟨hnew, hnodup⟩ := List.nodup_cons.1 hnodup
    have hthis : OneTarget js named target := ht _ List.mem_cons_self
    obtain ⟨s₁, hsteps, hjobs, hfail, hall⟩ := exists_steps_lowerAll named target
      [] s.jobs s rfl hfine (by
        intro i j hj hname hi
        rw [List.length_nil, Nat.zero_add] at hi
        obtain ⟨j₀, hj₀, hnamed⟩ := h.job_cases hj
        exact hwaiting i hi j₀ hj₀ (by simp [← hnamed, hname]))
    rw [List.nil_append] at hjobs
    rw [Batch.lowerGroups]
    cases hf : s₁.failure with
    | some f =>
      rw [hf] at hfail
      refine ⟨s₁, .fail hsteps (by simp [hf]), ?_, ?_⟩
      · simp only [← hfail, hjobs]
      · simp only [← hfail, hf, Option.map_some]
    | none =>
      rw [hf] at hfail
      have hnow : Follows js s₁ := h.steps hthis hsteps
      -- a job of the group was done before, or is done now
      have hfinished : Finished named s₁ := by
        intro i j hj hname
        obtain ⟨j₀, hj₀, hnamed⟩ := hnow.job_cases hj
        by_cases hi : i ∈ s.places
        · exact places_subset_of_steps hsteps hi
        · have hbefore : s.jobs[i]? = some j₀ := (h.waiting i hi).trans hj₀
          simpa using hall hf i j₀ hbefore (by rw [← hnamed, hname])
      obtain ⟨s₂, hruns, hjobs₂, hfail₂⟩ := ih hnow
        (fun g hg => ht g (List.mem_cons_of_mem _ hg)) hnodup hf (by
          intro i hi j hj hmem
          rcases named_of_steps h hthis hsteps hi with hold | ⟨j', hj', hname⟩
          · exact hwaiting i hold j hj (List.mem_cons_of_mem _ hmem)
          · obtain rfl : j' = j := Option.some.inj (hj'.symm.trans hj)
            exact hnew (hname ▸ hmem))
      refine ⟨s₂, .next hsteps hf hfinished hruns, ?_, ?_⟩
      · simp only [← hfail, ← hjobs, hjobs₂]
      · simp only [← hfail, ← hjobs, hfail₂]

end Progress

/-! ## Results -/

namespace Described

variable {given : Option Abi} {config : Config} {d : Described} {j j' : Job}

/-- The function can be lowered alone for its own convention, and `j` is what that gives. -/
structure LowersTo (given : Option Abi) (config : Config) (d : Described) (j : Job) : Prop where
  named : j.named = given.or d.abi
  target : Target.ofAbi ((given.or d.abi).getD Target.defaultAbi) config = .ok j.target
  fine : (j.target.lower d.proc).failure = none
  proc : j.proc = (j.target.lower d.proc).proc

theorem LowersTo.unique (h : d.LowersTo given config j) (h' : d.LowersTo given config j') :
    j = j' := by
  have htarget : j.target = j'.target := Except.ok.inj (h.target.symm.trans h'.target)
  obtain ⟨named, target, proc⟩ := j
  obtain ⟨named', target', proc'⟩ := j'
  obtain rfl : target = target' := htarget
  rw [Job.mk.injEq]
  exact ⟨h.named.trans h'.named.symm, rfl, h.proc.trans h'.proc.symm⟩

/-- A function can be lowered alone if its convention has a target that can lower it. -/
theorem exists_lowersTo_iff : (∃ j, d.LowersTo given config j) ↔ ∃ target,
    Target.ofAbi ((given.or d.abi).getD Target.defaultAbi) config = .ok target ∧
      (target.lower d.proc).failure = none := by
  constructor
  · rintro ⟨j, h⟩
    exact ⟨j.target, h.target, h.fine⟩
  · rintro ⟨target, htarget, hfine⟩
    exact ⟨⟨given.or d.abi, target, (target.lower d.proc).proc⟩, rfl, htarget, hfine, rfl⟩

theorem lowersTo_lowered (h : Job.Makes given config d j)
    (hok : (j.target.lower j.proc).failure = none) : d.LowersTo given config j.lowered where
  named := h.1
  target := h.2.2
  fine := by rw [← h.2.1]; exact hok
  proc := by rw [← h.2.1]; rfl

end Described

namespace Progress

variable {given : Option Abi} {config : Config} {ds : List Described} {js : List Job}
  {s : Progress}

/-- A run without failure leaves at each place what lowering the function alone gives. -/
theorem lowersTo_of_runs (hjs : Job.ofAll given config ds = .ok js)
    (hr : Runs (Job.groups [] js) { jobs := js } s) (hok : s.failure = none) :
    List.Forall₂ (Described.LowersTo given config) ds s.jobs := by
  have hmakes := Job.ofAll_eq_ok_iff.1 hjs
  have hone := Job.oneTarget_of_ofAll hjs
  have hend : Follows js s := (follows_start js).runs hone hr
  rw [List.forall₂_iff_get]
  refine ⟨hmakes.length_eq.trans hend.length.symm, fun i hi hi' => ?_⟩
  have hij : i < js.length := hend.length ▸ hi'
  have hj : js[i]? = some js[i] := List.getElem?_eq_getElem hij
  -- the place has been lowered, as its convention has a group
  have hplace : i ∈ s.places := (follows_start js).mem_places_of_runs hone hr hok hj
    (Job.named_mem_groups (List.getElem_mem hij) List.not_mem_nil)
  obtain ⟨target, hran⟩ := mem_places.1 hplace
  obtain ⟨j, hj', -, hjob⟩ := hend.ran i target hran
  obtain rfl : js[i] = j := Option.some.inj (hj.symm.trans hj')
  have heq : s.jobs.get ⟨i, hi'⟩ = js[i].lowered :=
    Option.some.inj ((List.getElem?_eq_getElem hi').symm.trans hjob)
  rw [heq]
  exact Described.lowersTo_lowered (hmakes.get hi hij) (hend.failure.1 hok i hplace _ hj)

/-- A run succeeds exactly if every function can be lowered alone. -/
theorem failure_eq_none_iff_of_runs (hjs : Job.ofAll given config ds = .ok js)
    (hr : Runs (Job.groups [] js) { jobs := js } s) :
    s.failure = none ↔ ∀ d ∈ ds, ∃ j, d.LowersTo given config j := by
  constructor
  · intro hok d hd
    obtain ⟨i, hi, rfl⟩ := List.mem_iff_getElem.1 hd
    have hall := lowersTo_of_runs hjs hr hok
    exact ⟨_, hall.get hi (hall.length_eq ▸ hi)⟩
  · intro hall
    have hmakes := Job.ofAll_eq_ok_iff.1 hjs
    have hend : Follows js s := (follows_start js).runs (Job.oneTarget_of_ofAll hjs) hr
    rw [hend.failure]
    intro i _ j hj
    obtain ⟨hij, rfl⟩ := List.getElem?_eq_some_iff.1 hj
    have hi : i < ds.length := hmakes.length_eq ▸ hij
    obtain ⟨-, hproc, htarget⟩ := hmakes.get hi hij
    obtain ⟨j', hj'⟩ := hall (ds[i]) (List.getElem_mem hi)
    have hsame : js[i].target = j'.target := Except.ok.inj (htarget.symm.trans hj'.target)
    have hfine := hj'.fine
    rw [← hsame] at hfine
    rw [← hfine]
    exact congrArg (fun p => (js[i].target.lower p).failure) hproc

/-- A run without failure lowers each place once, by the target of its own convention. -/
theorem ran_of_runs (hjs : Job.ofAll given config ds = .ok js)
    (hr : Runs (Job.groups [] js) { jobs := js } s) (hok : s.failure = none) :
    s.places.Perm (List.range ds.length) ∧
      ∀ i target, (i, target) ∈ s.ran → ∃ d, ds[i]? = some d ∧
        Target.ofAbi ((given.or d.abi).getD Target.defaultAbi) config = .ok target := by
  have hmakes := Job.ofAll_eq_ok_iff.1 hjs
  have hone := Job.oneTarget_of_ofAll hjs
  have hend : Follows js s := (follows_start js).runs hone hr
  constructor
  · apply (List.perm_ext_iff_of_nodup hend.nodup List.nodup_range).2
    intro i
    rw [List.mem_range, hmakes.length_eq]
    constructor
    · intro hi
      obtain ⟨target, hran⟩ := mem_places.1 hi
      obtain ⟨j, hj, -⟩ := hend.ran i target hran
      exact (List.getElem?_eq_some_iff.1 hj).1
    · intro hi
      exact (follows_start js).mem_places_of_runs hone hr hok (List.getElem?_eq_getElem hi)
        (Job.named_mem_groups (List.getElem_mem hi) List.not_mem_nil)
  · intro i target hran
    obtain ⟨j, hj, rfl, -⟩ := hend.ran i target hran
    obtain ⟨hij, rfl⟩ := List.getElem?_eq_some_iff.1 hj
    have hi : i < ds.length := hmakes.length_eq ▸ hij
    exact ⟨ds[i], List.getElem?_eq_getElem hi, (hmakes.get hi hij).2.2⟩

/-- The batch is the end of a run in the order of the file. -/
theorem exists_runs_lower (hjs : Job.ofAll given config ds = .ok js) :
    ∃ s, Runs (Job.groups [] js) { jobs := js } s ∧ s.jobs = (Batch.lower given config ds).jobs ∧
      s.failure.map BatchError.failure = (Batch.lower given config ds).failure := by
  rw [Batch.lower, hjs]
  exact exists_runs_lowerGroups (follows_start js) (Job.oneTarget_of_ofAll hjs)
    (Job.nodup_groups [] js) rfl (by simp [places])

end Progress

namespace Batch

variable {given : Option Abi} {config : Config} {ds : List Described}

theorem failure_eq_none_iff :
    (lower given config ds).failure = none ↔ ∀ d ∈ ds, ∃ j, d.LowersTo given config j := by
  cases hjs : Job.ofAll given config ds with
  | error e =>
    have hfail : (lower given config ds).failure = some (.abi e) := by rw [lower, hjs]
    rw [hfail]
    refine iff_of_false (by simp) fun hall => ?_
    obtain ⟨js, hok⟩ := Job.exists_ofAll fun d hd =>
      (hall d hd).elim fun j hj => ⟨j.target, hj.target⟩
    rw [hjs] at hok
    cases hok
  | ok js =>
    obtain ⟨s, hr, -, hfail⟩ := Progress.exists_runs_lower hjs
    rw [← hfail, Option.map_eq_none_iff]
    exact Progress.failure_eq_none_iff_of_runs hjs hr

theorem lowersTo_of_failure_eq_none (h : (lower given config ds).failure = none) :
    List.Forall₂ (Described.LowersTo given config) ds (lower given config ds).jobs := by
  obtain ⟨js, hjs⟩ := Job.exists_ofAll fun d hd =>
    (failure_eq_none_iff.1 h d hd).elim fun j hj => ⟨j.target, hj.target⟩
  obtain ⟨s, hr, hjobs, hfail⟩ := Progress.exists_runs_lower hjs
  rw [h, Option.map_eq_none_iff] at hfail
  rw [← hjobs]
  exact Progress.lowersTo_of_runs hjs hr hfail

/-- A file can be lowered exactly if each function can be lowered alone by the target of its own
convention, and the result at its place is what that gives. This holds of the batch and of every run
of its groups, in whatever order the functions of a group are taken; a run that does not fail lowers
each function once. -/
theorem grouping_keeps_results (given : Option Abi) (config : Config) (ds : List Described) :
    ((lower given config ds).failure = none ↔ ∀ d ∈ ds, ∃ target,
        Target.ofAbi ((given.or d.abi).getD Target.defaultAbi) config = .ok target ∧
          (target.lower d.proc).failure = none) ∧
      ((lower given config ds).failure = none →
        List.Forall₂ (Described.LowersTo given config) ds (lower given config ds).jobs) ∧
      ∀ js, Job.ofAll given config ds = .ok js →
        (∃ s, Progress.Runs (Job.groups [] js) { jobs := js } s) ∧
        ∀ s, Progress.Runs (Job.groups [] js) { jobs := js } s →
          (s.failure = none ↔ (lower given config ds).failure = none) ∧
          (s.failure = none → s.jobs = (lower given config ds).jobs ∧
            s.places.Perm (List.range ds.length) ∧
            ∀ i target, (i, target) ∈ s.ran → ∃ d, ds[i]? = some d ∧
              Target.ofAbi ((given.or d.abi).getD Target.defaultAbi) config = .ok target) := by
  refine ⟨?_, lowersTo_of_failure_eq_none, fun js hjs => ⟨?_, fun s hr => ?_⟩⟩
  · rw [failure_eq_none_iff]
    exact forall₂_congr fun d _ => Described.exists_lowersTo_iff
  · obtain ⟨s, hr, -⟩ := Progress.exists_runs_lower hjs
    exact ⟨s, hr⟩
  · have hiff := (Progress.failure_eq_none_iff_of_runs hjs hr).trans failure_eq_none_iff.symm
    refine ⟨hiff, fun hok => ⟨?_, Progress.ran_of_runs hjs hr hok⟩⟩
    -- both are the lowerings of the functions alone, and there is one of each
    have hunique : Relator.RightUnique (Described.LowersTo given config) :=
      fun _ _ _ => Described.LowersTo.unique
    exact List.right_unique_forall₂' hunique (Progress.lowersTo_of_runs hjs hr hok)
      (lowersTo_of_failure_eq_none (hiff.1 hok))

/-- A function that loads its only object. -/
def loadsObject (name : String) (op : Opcode) (middle : List Operand) : Procedure where
  name := name
  blocks := [{ lines := Line.number 0 [
    .make op (.use (.core 0) :: .frameIndex 0 :: middle ++ [.imm 0, .cond .al, .use .noreg]),
    .make .bxRet [.cond .al, .use .noreg]] }]
  frame := { objects := [{ size := 4, align := 4 }] }
  fresh := 2

/-- Jobs for two functions of the default convention, with one for Thumb-2 between them. -/
def mixedJobs : List Job :=
  [⟨none, .plainDefault, loadsObject "f" .ldr [.use .noreg]⟩,
    ⟨some .aapcsThumb2, ⟨.aapcsThumb2, {}, rfl⟩, loadsObject "g" .t2ldri12 []⟩,
    ⟨none, .plainDefault, loadsObject "h" .ldr [.use .noreg]⟩]

/-- The functions of the first group taken from the last to the first. -/
theorem grouping_keeps_results_backwards :
    ∃ ds s, Job.ofAll none {} ds = .ok mixedJobs ∧
      Progress.Runs (Job.groups [] mixedJobs) { jobs := mixedJobs } s ∧ s.places = [1, 0, 2] ∧
      s.failure = none ∧ s.jobs = (lower none {} ds).jobs := by
  let ds : List Described := mixedJobs.map fun j => ⟨j.named, j.proc⟩
  have hjs : Job.ofAll none {} ds = .ok mixedJobs := rfl
  let s : Progress := { jobs := mixedJobs }
  let s₁ := s.lowerAt .plainDefault 2 (mixedJobs[2])
  let s₂ := s₁.lowerAt .plainDefault 0 (mixedJobs[0])
  let s₃ := s₂.lowerAt (mixedJobs[1]).target 1 (mixedJobs[1])
  have hok₂ : s₂.failure = none := by decide +kernel
  have hok₃ : s₃.failure = none := by decide +kernel
  have hfirst : Relation.ReflTransGen (Progress.Step none .plainDefault) s s₂ :=
    .tail (.single (.lower rfl rfl (by decide))) (.lower rfl rfl (by decide))
  have hsecond : Relation.ReflTransGen
      (Progress.Step (some .aapcsThumb2) (mixedJobs[1]).target) s₂ s₃ :=
    .single (.lower rfl rfl (by decide))
  have hfinished₂ : Progress.Finished none s₂ := by
    rintro (_ | _ | _ | i) j hj hname
    · decide
    · cases hj
      cases hname
    · decide
    · cases hj
  have hfinished₃ : Progress.Finished (some .aapcsThumb2) s₃ := by
    rintro (_ | _ | _ | i) j hj hname
    · decide
    · decide
    · decide
    · cases hj
  have hruns : Progress.Runs (Job.groups [] mixedJobs) s s₃ :=
    .next hfirst hok₂ hfinished₂ (.next hsecond hok₃ hfinished₃ (.nil s₃))
  exact ⟨ds, s₃, hjs, hruns, rfl, hok₃,
    (((grouping_keeps_results none {} ds).2.2 mixedJobs hjs).2 s₃ hruns).2 hok₃ |>.1⟩

end Batch

end FrameLowering
