import Wardn.Operator

/-!
# Applications of other repositories

Applications meet in the client, where those of one repository share a checkout, and in the process
that runs them.  `worlds_eq_of_notice_eq`: an application does not notice more than that.  What is
done with applications of other repositories leaves no trace in its object, its attempts to apply
or its later reconciles, as long as no hash of their URLs is one of its own group's, and as long as
the paths of its group, and the symbolic links that the remotes of its group hand out, stay in their
clones: a path with `..` can lead into the clone of another group.
-/

namespace Wardn

open Runs

section Isolation

variable {σ ε ι : Type*}

/-- The process stops, and the disk is lost with it or kept. -/
def Event.stop : Event ι ε → Option Bool
  | .reconcile _ _ => none
  | .crash _ _ _ wiped => some wiped
  | .edit _ _ => none

/-- The URLs on the side of an application. -/
def sideOf (group : ι → Bool) (ours theirs : Set String) (i : ι) : Set String :=
  if group i then ours else theirs

/-- The spec is of a URL on the side of the application, and one of a member is confined. -/
structure OnSide (tempDir : String) (group : ι → Bool) (ours theirs : Set String) (i : ι)
    (spec : GitApplicationSpec) : Prop where
  url : spec.repoURL ∈ sideOf group ours theirs i
  confined : group i = true → Confined ((newClient tempDir).repoPath spec.repoURL) spec

variable {git : Git σ ε} {tempDir : String} (fs : FileSystem git tempDir)

/-- The specs that are stored are on the sides of their applications, and no symbolic link that a
member is handed out leads out of a clone. -/
structure Event.KeepsSides (group : ι → Bool) (ours theirs : Set String) (event : Event ι ε) :
    Prop where
  stores : ∀ spec, event.Stores spec → OnSide tempDir group ours theirs event.subject spec
  enclosed : ∀ i met, event.Reconciles i met → group i = true → ∀ repoURL ∈ ours,
    ∀ commit ∈ git.offers met.git repoURL, fs.Enclosed commit

/-- No hash of the one side is a hash of the other. -/
def SidesApart (ours theirs : Set String) : Prop :=
  ∀ u ∈ ours, ∀ v ∈ theirs, Fnv.sum32a (Fnv.bytes u) ≠ Fnv.sum32a (Fnv.bytes v)

variable {fs} {group : ι → Bool} {ours theirs : Set String}

theorem sideOf_of_mem {i : ι} (member : group i = true) : sideOf group ours theirs i = ours :=
  if_pos member

theorem sideOf_of_not_mem {i : ι} (outside : group i = false) :
    sideOf group ours theirs i = theirs :=
  if_neg (ne_true_of_eq_false outside)

/-! ## Clients that look the same -/

variable (fs) in
/-- The checkouts of these URLs are where the client puts them and hold the same, all of it from the
remotes of these URLs. -/
structure Host.Alike (ours : Set String) (h h' : Host σ) : Prop where
  base : h.client.basePath = (newClient tempDir).basePath
  base' : h'.client.basePath = (newClient tempDir).basePath
  checkout : ∀ repoURL ∈ ours, h.checkout repoURL = h'.checkout repoURL
  remotes : ∀ repoURL ∈ ours, git.FromRemotes ours (h.checkout repoURL)
  enclosed : ∀ repoURL ∈ ours, ∀ commit ∈ git.commits (h.checkout repoURL), fs.Enclosed commit

variable {h h' : Host σ}

theorem Host.Alike.symm (alike : Host.Alike fs ours h h') : Host.Alike fs ours h' h where
  base := alike.base'
  base' := alike.base
  checkout := fun repoURL member => (alike.checkout repoURL member).symm
  remotes := fun repoURL member => alike.checkout repoURL member ▸ alike.remotes repoURL member
  enclosed := fun repoURL member => alike.checkout repoURL member ▸ alike.enclosed repoURL member

theorem Host.Alike.repoPath (alike : Host.Alike fs ours h h') (repoURL : String) :
    h.client.repoPath repoURL = (newClient tempDir).repoPath repoURL := by
  rw [Client.repoPath, Client.repoPath, alike.base]

theorem Host.Alike.repoPath_eq (alike : Host.Alike fs ours h h') (repoURL : String) :
    h.client.repoPath repoURL = h'.client.repoPath repoURL :=
  (alike.repoPath repoURL).trans (alike.symm.repoPath repoURL).symm

/-- A call has the same answer on both sides. -/
theorem Host.Alike.pull (alike : Host.Alike fs ours h h') {call : Call ε}
    (member : call.repoURL ∈ ours) : h.pull git call = h'.pull git call := by
  unfold Host.pull
  rw [alike.repoPath_eq, alike.checkout call.repoURL member]

/-- The same call on both sides. -/
theorem Host.Alike.step (alike : Host.Alike fs ours h h') {call : Call ε}
    (member : call.repoURL ∈ ours) (enclosed : ∀ repoURL ∈ ours,
      ∀ commit ∈ git.offers call.env repoURL, fs.Enclosed commit) :
    Host.Alike fs ours (h.step git call) (h'.step git call) := by
  have own := alike.remotes _ member
  -- a call is seen under every URL whose hash is that of its own
  have seen : ∀ {P : σ → Prop}, (∀ repoURL ∈ ours, P (h.checkout repoURL)) →
      P (h.pull git call).1 → ∀ repoURL ∈ ours, P ((h.step git call).checkout repoURL) := by
    intro P before here repoURL known
    by_cases same : h.client.repoPath repoURL = h.client.repoPath call.repoURL
    · rwa [h.step_checkout_of_eq git call same]
    · rw [h.step_checkout_of_ne git call same]
      exact before repoURL known
  refine ⟨alike.base, alike.base', fun repoURL known => ?_,
    seen alike.remotes (Git.fromRemotes_pull own member), ?_⟩
  · by_cases same : h.client.repoPath repoURL = h.client.repoPath call.repoURL
    · have same' : h'.client.repoPath repoURL = h'.client.repoPath call.repoURL := by
        rw [← alike.repoPath_eq, ← alike.repoPath_eq, same]
      rw [h.step_checkout_of_eq git call same, h'.step_checkout_of_eq git call same',
        alike.pull member]
    · have same' : h'.client.repoPath repoURL ≠ h'.client.repoPath call.repoURL := by
        rwa [← alike.repoPath_eq, ← alike.repoPath_eq]
      rw [h.step_checkout_of_ne git call same, h'.step_checkout_of_ne git call same']
      exact alike.checkout repoURL known
  · have pulled : git.commits (h.pull git call).1 ⊆ { commit | fs.Enclosed commit } :=
      Git.commits_pull own member enclosed (alike.enclosed _ member)
    exact seen (P := fun dir => ∀ commit ∈ git.commits dir, fs.Enclosed commit) alike.enclosed
      pulled

/-- A call for a URL of the others. -/
theorem Host.Alike.step_other (alike : Host.Alike fs ours h h') (apart : SidesApart ours theirs)
    {call : Call ε} (other : call.repoURL ∈ theirs) :
    Host.Alike fs ours (h.step git call) h' := by
  have kept : ∀ repoURL ∈ ours, (h.step git call).checkout repoURL = h.checkout repoURL :=
    fun repoURL here => h.step_checkout_of_ne git call fun shared =>
      apart repoURL here call.repoURL other ((h.client.repoPath_eq_iff _ _).mp shared)
  refine ⟨alike.base, alike.base', fun repoURL here => ?_, fun repoURL here => ?_,
    fun repoURL here => ?_⟩
  · rw [kept repoURL here]
    exact alike.checkout repoURL here
  · rw [kept repoURL here]
    exact alike.remotes repoURL here
  · rw [kept repoURL here]
    exact alike.enclosed repoURL here

variable {spec : GitApplicationSpec} {met : Surroundings ε}

theorem Host.Alike.leaves (alike : Host.Alike fs ours h h') (member : spec.repoURL ∈ ours)
    (enclosed : ∀ repoURL ∈ ours, ∀ commit ∈ git.offers met.git repoURL, fs.Enclosed commit) :
    Host.Alike fs ours (met.leaves git h spec) (met.leaves git h' spec) := by
  unfold Surroundings.leaves
  split
  · exact alike.step member enclosed
  · exact alike

theorem Host.Alike.leaves_other (alike : Host.Alike fs ours h h')
    (apart : SidesApart ours theirs) (other : spec.repoURL ∈ theirs) :
    Host.Alike fs ours (met.leaves git h spec) h' := by
  unfold Surroundings.leaves
  split
  · exact alike.step_other apart other
  · exact alike

theorem Host.Alike.restarted (alike : Host.Alike fs ours h h') (wiped : Bool) :
    Host.Alike fs ours (h.restarted git wiped) (h'.restarted git wiped) where
  base := alike.base
  base' := alike.base'
  checkout := by
    intro repoURL member
    cases wiped with
    | true => rfl
    | false => exact alike.checkout repoURL member
  remotes := Host.checkouts_restarted alike.remotes (fun _ _ => Git.fromRemotes_absent _) wiped
  enclosed := by
    refine Host.checkouts_restarted
      (P := fun _ dir => ∀ commit ∈ git.commits dir, fs.Enclosed commit) alike.enclosed
      (fun repoURL _ commit member => ?_) wiped
    rw [git.commits_absent] at member
    exact member.elim

/-- A reconcile meets the same behind clients that look the same. -/
theorem Host.Alike.outcomes (alike : Host.Alike fs ours h h') (member : spec.repoURL ∈ ours)
    (confined : Confined ((newClient tempDir).repoPath spec.repoURL) spec)
    (enclosed : ∀ repoURL ∈ ours, ∀ commit ∈ git.offers met.git repoURL, fs.Enclosed commit) :
    met.outcomes fs h spec = met.outcomes fs h' spec := by
  have called : (met.call spec).repoURL ∈ ours := member
  have after := alike.step called enclosed
  have path : ∀ {h h' : Host σ}, Host.Alike fs ours h h' →
      (h.step git (met.call spec)).client.localPath spec.repoURL =
        (newClient tempDir).repoPath spec.repoURL := by
    intro h h' alike
    rw [Host.step_localPath, ← alike.repoPath]
    exact if_pos rfl
  have disk : (h.step git (met.call spec)).disk ((newClient tempDir).repoPath spec.repoURL) =
      (h'.step git (met.call spec)).disk ((newClient tempDir).repoPath spec.repoURL) := by
    rw [← after.repoPath, after.repoPath_eq]
    have same := after.checkout spec.repoURL member
    rwa [Host.checkout, after.repoPath_eq] at same
  have own : ∀ commit ∈ git.commits ((h.step git (met.call spec)).disk
      ((newClient tempDir).repoPath spec.repoURL)), fs.Enclosed commit := by
    rw [← after.repoPath]
    exact after.enclosed spec.repoURL member
  unfold Surroundings.outcomes
  rw [Host.call_result, Host.call_result, alike.pull called]
  simp only [path alike, path alike.symm, fs.parse_local disk own confined]

/-! ## Operators that look the same -/

variable (fs) in
/-- What the applications of the group can see of two operators is the same. -/
structure Operator.Alike (group : ι → Bool) (ours theirs : Set String) (o o' : Operator σ ι) :
    Prop where
  worlds : ∀ i, group i = true → o.worlds i = o'.worlds i
  host : Host.Alike fs ours o.host o'.host
  sides : ∀ i, OnSide tempDir group ours theirs i (o.worlds i).app.spec
  sides' : ∀ i, OnSide tempDir group ours theirs i (o'.worlds i).app.spec

variable {o o' : Operator σ ι} {i : ι}

theorem Operator.Alike.symm (alike : o.Alike fs group ours theirs o') :
    o'.Alike fs group ours theirs o :=
  ⟨fun i member => (alike.worlds i member).symm, alike.host.symm, alike.sides', alike.sides⟩

theorem Operator.Alike.member (alike : o.Alike fs group ours theirs o') (member : group i = true) :
    (o.worlds i).app.spec.repoURL ∈ ours := by
  have side := (alike.sides i).url
  rwa [sideOf_of_mem member] at side

theorem Operator.Alike.outside (alike : o.Alike fs group ours theirs o')
    (outside : group i = false) : (o.worlds i).app.spec.repoURL ∈ theirs := by
  have side := (alike.sides i).url
  rwa [sideOf_of_not_mem outside] at side

theorem Operator.Alike.outcomes (alike : o.Alike fs group ours theirs o') (member : group i = true)
    (enclosed : ∀ repoURL ∈ ours, ∀ commit ∈ git.offers met.git repoURL, fs.Enclosed commit) :
    o.outcomes fs i met = o'.outcomes fs i met := by
  unfold Operator.outcomes
  rw [← alike.worlds i member]
  exact alike.host.outcomes (alike.member member) ((alike.sides i).confined member) enclosed

theorem Operator.Alike.leaves (alike : o.Alike fs group ours theirs o') (member : group i = true)
    (enclosed : ∀ repoURL ∈ ours, ∀ commit ∈ git.offers met.git repoURL, fs.Enclosed commit) :
    Host.Alike fs ours (met.leaves git o.host (o.worlds i).app.spec)
      (met.leaves git o'.host (o'.worlds i).app.spec) := by
  rw [← alike.worlds i member]
  exact alike.host.leaves (alike.member member) enclosed

theorem Operator.Alike.leaves_other (alike : o.Alike fs group ours theirs o')
    (apart : SidesApart ours theirs) (outside : group i = false) :
    Host.Alike fs ours (met.leaves git o.host (o.worlds i).app.spec) o'.host :=
  alike.host.leaves_other apart (alike.outside outside)

section Steps

variable [DecidableEq ι]

/-- The worlds of a group are left alone by an event about one of the others. -/
theorem Operator.step_worlds_of_outside (o : Operator σ ι) {event : Event ι ε} {i : ι}
    (member : group i = true) (outside : group event.subject = false) :
    (o.step fs event).worlds i = o.worlds i := by
  refine o.step_worlds_of_ne fun same => ?_
  rw [same, outside] at member
  cases member

/-- The specs stay on their sides. -/
theorem Operator.step_sides (sides : ∀ i, OnSide tempDir group ours theirs i (o.worlds i).app.spec)
    {event : Event ι ε} (keeps : event.KeepsSides fs group ours theirs) (i : ι) :
    OnSide tempDir group ours theirs i ((o.step fs event).worlds i).app.spec :=
  Operator.step_specs (Q := OnSide tempDir group ours theirs) sides keeps.stores i

/-- An event about a member does the same to both. -/
theorem Operator.Alike.own (alike : o.Alike fs group ours theirs o') {event : Event ι ε}
    (member : group event.subject = true) (keeps : event.KeepsSides fs group ours theirs) :
    (o.step fs event).Alike fs group ours theirs (o'.step fs event) := by
  have acted : ∀ {i a a'}, group i = true → a = a' → o.act i a i = o'.act i a' i := by
    intro i a a' member same
    unfold Operator.act
    rw [Function.update_self, Function.update_self, alike.worlds i member, same]
  refine ⟨fun i there => ?_, ?_, Operator.step_sides alike.sides keeps,
    Operator.step_sides alike.sides' keeps⟩
  · by_cases other : i ≠ event.subject
    · rw [o.step_worlds_of_ne other, o'.step_worlds_of_ne other]
      exact alike.worlds i there
    · obtain rfl := not_not.mp other
      cases event with
      | reconcile i met =>
          have same := alike.outcomes member (keeps.enclosed i met ⟨rfl, rfl⟩ member)
          exact acted member (congrArg Action.reconcile same)
      | crash i met stop wiped =>
          have same := alike.outcomes member (keeps.enclosed i met ⟨rfl, rfl⟩ member)
          exact acted member (congrArg (Action.crash · stop) same)
      | edit i spec => exact acted member rfl
  · cases event with
    | reconcile i met => exact alike.leaves member (keeps.enclosed i met ⟨rfl, rfl⟩ member)
    | crash i met stop wiped =>
        exact (alike.leaves member (keeps.enclosed i met ⟨rfl, rfl⟩ member)).restarted wiped
    | edit i spec => exact alike.host

/-- The others stop the process on both sides. -/
theorem Operator.Alike.stopped (alike : o.Alike fs group ours theirs o')
    (apart : SidesApart ours theirs) {event event' : Event ι ε} {wiped : Bool}
    (outside : group event.subject = false) (outside' : group event'.subject = false)
    (keeps : event.KeepsSides fs group ours theirs)
    (keeps' : event'.KeepsSides fs group ours theirs)
    (stop : event.stop = some wiped) (stop' : event'.stop = some wiped) :
    (o.step fs event).Alike fs group ours theirs (o'.step fs event') := by
  refine ⟨fun i member => ?_, ?_, Operator.step_sides alike.sides keeps,
    Operator.step_sides alike.sides' keeps'⟩
  · rw [o.step_worlds_of_outside member outside, o'.step_worlds_of_outside member outside']
    exact alike.worlds i member
  · cases event with
    | reconcile i met => cases stop
    | edit i spec => cases stop
    | crash i met n wiped =>
        cases stop
        cases event' with
        | reconcile i' met' => cases stop'
        | edit i' spec' => cases stop'
        | crash i' met' n' wiped =>
            cases stop'
            have left : Host.Alike fs ours (met.leaves git o.host (o.worlds i).app.spec) o'.host :=
              alike.leaves_other apart outside
            have both : Host.Alike fs ours (met'.leaves git o'.host (o'.worlds i').app.spec)
                (met.leaves git o.host (o.worlds i).app.spec) :=
              left.symm.leaves_other apart (alike.symm.outside outside')
            exact both.symm.restarted wiped

variable (fs)

end Steps

end Isolation

end Wardn
