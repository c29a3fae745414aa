import FrameLowering.Description.Basic
import FrameLowering.Lowering.Pipeline

/-!
# Lowering the functions of a file

Functions are lowered group by group, one group for each convention that is named and one
for the functions that name none. The groups come in the order of their first function,
and the results in the order of the functions.
-/

namespace FrameLowering

/-- A function with its target and the convention that was named for it. -/
structure Job where
  named : Option Abi
  target : Target
  proc : Procedure

/-- Why functions could not all be lowered. -/
inductive BatchError where
  | abi (cause : AbiError)
  | failure (cause : Failure)

/-- Wording of the cause. -/
def BatchError.message : BatchError → String
  | .abi cause => cause.message
  | .failure (.error cause) => cause.message
  | .failure (.fault cause) => cause.message

/-- Functions after lowering, and what was reported on the way. -/
structure Batch where
  jobs : List Job
  trace : List String := []
  failure : Option BatchError := none

namespace Job

/-- The job of a function. A convention given for all takes the place of its own. -/
def ofDescribed (given : Option Abi) (config : Config) (d : Described) : Except AbiError Job :=
  let named := given.or d.abi
  match Target.ofAbi (named.getD Target.defaultAbi) config with
  | .ok target => .ok ⟨named, target, d.proc⟩
  | .error e => .error e

/-- The jobs of functions. -/
def ofAll (given : Option Abi) (config : Config) : List Described → Except AbiError (List Job)
  | [] => .ok []
  | d :: ds =>
    match ofDescribed given config d with
    | .error e => .error e
    | .ok job =>
      match ofAll given config ds with
      | .error e => .error e
      | .ok jobs => .ok (job :: jobs)

/-- The conventions of some jobs, each once, in the order of their first job. -/
def groups : (seen : List (Option Abi)) → List Job → List (Option Abi × Target)
  | _, [] => []
  | seen, j :: js =>
    if seen.contains j.named then groups seen js
    else (j.named, j.target) :: groups (j.named :: seen) js

/-- Puts the functions of a group back into their places. -/
def refill (named : Option Abi) : List Job → List Procedure → List Job
  | j :: js, p :: ps =>
    if j.named = named then { j with proc := p } :: refill named js ps
    else j :: refill named js (p :: ps)
  | js, _ => js

end Job

namespace Batch

/-- Lowers groups of jobs up to a failure. -/
def lowerGroups : List (Option Abi × Target) → List Job → Batch
  | [], jobs => { jobs }
  | (named, target) :: gs, jobs =>
    let group := jobs.filter (·.named = named)
    let (ps, trace, failure) := target.lowerAll (group.map (·.proc))
    let jobs := Job.refill named jobs ps
    match failure with
    | some f => ⟨jobs, trace, some (.failure f)⟩
    | none =>
      let rest := lowerGroups gs jobs
      { rest with trace := trace ++ rest.trace }

/-- Lowers functions. -/
def lower (given : Option Abi) (config : Config) (ds : List Described) : Batch :=
  match Job.ofAll given config ds with
  | .error e => { jobs := [], failure := some (.abi e) }
  | .ok jobs => lowerGroups (Job.groups [] jobs) jobs

end Batch

end FrameLowering
