import Keelith.Config.Model
import Keelith.Lib.Checks
import Keelith.Lib.Threads

/-!
# Convergence of the configuration

* **Revisions** (`combineRevisions_inj`): the revision of a merge gives back the revisions of its
  sources. So a published snapshot is known from its revision, if the snapshots of a source are
  (`Identified`).
* **The vector of the loop** (`Covers`): a source without pending events has its latest snapshot in
  the vector.
* **The condition** (`Manager.calm`): the loop never finds its candidate published by someone else,
  every candidate can be merged, and no `Load` publishes what is not the latest any more. Then
  `Manager.converges`; `TwoSources` is a run in which the loop publishes an old snapshot again.
-/

namespace Keelith.Config

/-! ## Revisions -/

theorem revisionPart_inj {a b x y : Bytes} (h : revisionPart a ++ x = revisionPart b ++ y) :
    a = b ∧ x = y := by
  simp only [revisionPart, List.append_assoc, List.cons_append] at h
  obtain ⟨hlen, h⟩ := Bytes.formatNat_delimited (by decide) h
  exact List.append_inj h hlen

variable {r s : List Bytes} {source : Nat} {first second : List Snapshot}

theorem revisionParts_inj (hlen : r.length = s.length) (h : revisionParts r = revisionParts s) :
    r = s := by
  induction r generalizing s with
  | nil => exact (List.length_eq_zero_iff.mp hlen.symm).symm
  | cons a r ih =>
    cases s with
    | nil => cases hlen
    | cons b s =>
      have htail : r.length = s.length := Nat.succ.inj hlen
      cases r with
      | nil =>
        obtain rfl := List.length_eq_zero_iff.mp htail.symm
        have h : revisionPart a ++ [] = revisionPart b ++ [] := by simpa [revisionParts] using h
        rw [(revisionPart_inj h).1]
      | cons a' r =>
        cases s with
        | nil => cases htail
        | cons b' s =>
          obtain ⟨rfl, hrest⟩ := revisionPart_inj h
          rw [ih htail (List.cons.inj hrest).2]

theorem combineRevisions_of_ne (h : r.length ≠ 1) :
    combineRevisions r = revisionParts r := by
  match r, h with
  | [], _ => rfl
  | _ :: _ :: _, _ => rfl

theorem combineRevisions_inj (hlen : r.length = s.length)
    (h : combineRevisions r = combineRevisions s) : r = s := by
  by_cases hone : r.length = 1
  · obtain ⟨a, rfl⟩ := List.length_eq_one_iff.mp hone
    obtain ⟨b, rfl⟩ := List.length_eq_one_iff.mp (hlen ▸ hone)
    exact congrArg (fun x => [x]) h
  · rw [combineRevisions_of_ne hone, combineRevisions_of_ne (hlen ▸ hone)] at h
    exact revisionParts_inj hlen h

/-! ## Merges -/

/-- A function from revisions to values for each source. -/
abbrev Contents := Nat → Bytes → List (Bytes × Value)

/-- The snapshot of the source is known from its revision. -/
def Identified (f : Contents) (source : Nat) (s : Snapshot) : Prop := s.values = f source s.revision

variable {f : Contents} {snapshots : List Snapshot}

theorem Identified.ext {s t : Snapshot} (hs : Identified f source s)
    (ht : Identified f source t) (h : s.revision = t.revision) : s = t := by
  have hvalues : s.values = t.values := by rw [hs, ht, h]
  rw [Snapshot.mk.injEq]
  exact ⟨h, hvalues⟩

/-- The snapshots of a vector are known from their revisions. -/
def VectorIdentified (f : Contents) (snapshots : List Snapshot) : Prop :=
  ∀ i s, snapshots[i]? = some s → Identified f i s

theorem VectorIdentified.nil : VectorIdentified f [] := nofun

variable {s : Snapshot}

theorem VectorIdentified.set (h : VectorIdentified f snapshots) (hs : Identified f source s) :
    VectorIdentified f (snapshots.set source s) := by
  intro i t ht
  obtain ⟨rfl, rfl⟩ | ⟨-, ht⟩ := Threads.cases_set ht
  · exact hs
  · exact h i t ht

theorem VectorIdentified.snoc (h : VectorIdentified f snapshots)
    (hs : Identified f snapshots.length s) : VectorIdentified f (snapshots ++ [s]) := by
  intro i t ht
  obtain ht | ⟨rfl, rfl⟩ := getElem?_snoc.mp ht
  · exact h i t ht
  · exact hs

/-- Identified vectors with the same revisions are equal. -/
theorem VectorIdentified.ext (hfirst : VectorIdentified f first)
    (hsecond : VectorIdentified f second)
    (h : first.map Snapshot.revision = second.map Snapshot.revision) : first = second := by
  refine List.ext_getElem? fun i => ?_
  have hi : (first[i]?).map Snapshot.revision = (second[i]?).map Snapshot.revision := by
    rw [← List.getElem?_map, ← List.getElem?_map, h]
  cases hs : first[i]? with
  | none =>
    rw [hs, Option.map_none, eq_comm, Option.map_eq_none_iff] at hi
    exact hi.symm
  | some s =>
    rw [hs, Option.map_some, eq_comm, Option.map_eq_some_iff] at hi
    obtain ⟨t, ht, hrevision⟩ := hi
    rw [ht, Identified.ext (hsecond i t ht) (hfirst i s hs) hrevision]

theorem merge_revision {merged : Snapshot} (h : merge snapshots = .ok merged) :
    merged.revision = combineRevisions (snapshots.map Snapshot.revision) := by
  unfold merge at h
  rw [guard_eq_ok] at h
  obtain ⟨-, h⟩ := h
  split at h
  next => cases h
  next =>
    dsimp only at h
    split at h
    next => obtain rfl := Except.ok.inj h; rfl
    next => cases h

/-- A merge that has the revision of identified snapshots is their merge. -/
theorem merge_of_revision {a : Snapshot}
    (hlen : first.length = second.length) (hfirst : VectorIdentified f first)
    (hsecond : VectorIdentified f second)
    (ha : merge first = .ok a) (h : a.revision = combineRevisions (second.map Snapshot.revision)) :
    merge second = .ok a := by
  rw [merge_revision ha] at h
  rw [← hfirst.ext hsecond (combineRevisions_inj (by simpa using hlen) h)]
  exact ha

/-- A combined revision tells the revision of every source, whatever characters the revisions hold,
so `publish` skips a candidate only if every source has the revision that is published. -/
theorem publish_unchanged_revisions (check : Snapshot → Bool) :
    (∀ r s : List Bytes, r.length = s.length → combineRevisions r = combineRevisions s → r = s) ∧
      ∀ (published sources : List Snapshot) (current : Option Snapshot) (candidate : Snapshot),
        published.length = sources.length → (∀ c ∈ current, merge published = .ok c) →
          merge sources = .ok candidate → publish check current candidate = .unchanged →
        current.isSome ∧ published.map Snapshot.revision = sources.map Snapshot.revision := by
  refine ⟨fun r s => combineRevisions_inj,
    fun published sources current candidate hlen hcurrent hcandidate h => ?_⟩
  have hany : current.any (fun c => c.revision == candidate.revision) = true := by
    by_contra hne
    rw [publish, if_neg hne] at h
    split at h <;> cases h
  obtain ⟨c, hc, hrevision⟩ := (Option.any_eq_true _ _).mp hany
  rw [beq_iff_eq, merge_revision (hcurrent c hc), merge_revision hcandidate] at hrevision
  exact ⟨Option.isSome_of_mem hc, combineRevisions_inj (by simpa using hlen) hrevision⟩

/-- A separator in a revision, and a byte that is not UTF-8. -/
def framed : List Snapshot := [⟨bytesOf "a|1:b", []⟩, ⟨[0xff], []⟩]

theorem publish_unchanged_revisions_framed :
    publish (fun _ => true) (some ⟨bytesOf "5:a|1:b|1:" ++ [0xff], []⟩)
        ⟨bytesOf "5:a|1:b|1:" ++ [0xff], []⟩ = .unchanged ∧
      framed.map Snapshot.revision = [bytesOf "a|1:b", [0xff]] :=
  ⟨by decide, ((publish_unchanged_revisions fun _ => true).2 framed framed
    (some ⟨bytesOf "5:a|1:b|1:" ++ [0xff], []⟩) _ rfl (by rintro c ⟨⟩; rfl) rfl (by decide)).2⟩

/-! ## The condition -/

/-- The call has returned. -/
def LoadPhase.done : LoadPhase → Bool
  | .returned => true
  | _ => false

namespace Manager

/-- The loop of `Watch` runs. -/
def loops (m : Manager) : Bool :=
  match m.watch with
  | .looping _ => true
  | _ => false

/-- The loop runs and has taken every event. -/
def settled (m : Manager) : Bool := m.loops && (List.range m.latest.length).all fun i =>
    (m.queue i).isEmpty

/-- While the loop runs, a call of `Load` publishes what it has read only if those are still the
latest snapshots, or are published already; and the loop merges an event into something that is not
yet published, unless it knows the snapshot of the event. -/
def calm (m : Manager) : Input → Bool
  | .loadStep call _ =>
    match m.watch, m.loads[call]? with
    | .looping _, some (.publishing candidate) =>
      candidate.revision == combineRevisions (m.latest.map Snapshot.revision) ||
        m.current.any fun c => c.revision == candidate.revision
    | _, _ => true
  | .event source =>
    match m.watch, m.queue source with
    | .looping sourceSnapshots, snapshot :: _ =>
      match merge (sourceSnapshots.set source snapshot) with
      | .error _ => false
      | .ok candidate =>
        !(m.current.any fun c => c.revision == candidate.revision) ||
          (sourceSnapshots[source]?).any fun s => s.revision == snapshot.revision
    | _, _ => true
  | _ => true

/-- The snapshots of each source, at the start and later, are known from their revisions. -/
structure SourcesIdentified (f : Contents) (history : List (Event Manager Input Unit))
    (m : Manager) : Prop where
  initially : VectorIdentified f (Machine.initialState history m).latest
  updates : ∀ source snapshot, .update source snapshot ∈ history.map Event.input →
    Identified f source snapshot

/-! ## The invariant -/

/-- A source that has no pending event has its latest snapshot in the vector. -/
def Covers (m : Manager) (snapshots : List Snapshot) : Prop :=
  ∀ i < snapshots.length, m.queue i = [] → snapshots[i]? = m.latest[i]?

/-- What the phase of `Watch` says. -/
def WatchOk (f : Contents) (m : Manager) : Prop :=
  match m.watch with
  | .idle | .establishing _ => True
  | .reading snapshots => snapshots.length ≤ m.latest.length ∧ VectorIdentified f snapshots ∧
      m.Covers snapshots
  | .publishing snapshots candidate =>
    snapshots.length = m.latest.length ∧ VectorIdentified f snapshots ∧ m.Covers snapshots ∧
      merge snapshots = .ok candidate
  | .looping snapshots =>
    snapshots.length = m.latest.length ∧ VectorIdentified f snapshots ∧ m.Covers snapshots ∧
      ((∃ i < m.latest.length, m.queue i ≠ []) ∨
        ∃ c, m.current = some c ∧ (merge snapshots = .ok c ∨ merge m.latest = .ok c))

/-- What the phase of `Load` says. -/
def LoadOk (f : Contents) (m : Manager) : LoadPhase → Prop
  | .reading snapshots => snapshots.length ≤ m.latest.length ∧ VectorIdentified f snapshots
  | .publishing candidate =>
    ∃ snapshots, snapshots.length = m.latest.length ∧ VectorIdentified f snapshots ∧
      merge snapshots = .ok candidate
  | .returned => True

/-- The invariant of calm runs. -/
structure CalmInv (f : Contents) (m : Manager) : Prop where
  latest : VectorIdentified f m.latest
  queued : ∀ i s, s ∈ m.queue i → Identified f i s
  last : ∀ i < m.latest.length, m.watches i = true → m.queue i ≠ [] →
    (m.queue i).getLast? = m.latest[i]?
  current : ∀ c, m.current = some c →
    ∃ snapshots, snapshots.length = m.latest.length ∧ VectorIdentified f snapshots ∧
      merge snapshots = .ok c
  watch : WatchOk f m
  loads : ∀ l ∈ m.loads, LoadOk f m l

section Steps

variable {check : Snapshot → Bool} {m : Manager}

variable {snapshot : Snapshot}

variable {candidate : Snapshot} {call : Nat} {phase : WatchPhase} {rest : List Snapshot}

/-- The current snapshot is a merge of identified snapshots, so one that has its revision is the
same. -/
theorem CalmInv.publish_eq (h : CalmInv f m) (hcheck : ∀ s, check s = true)
    (hlen : snapshots.length = m.latest.length) (hid : VectorIdentified f snapshots)
    (hmerge : merge snapshots = .ok candidate) :
    publish check m.current candidate = .stored ∨
      publish check m.current candidate = .unchanged ∧ m.current = some candidate := by
  unfold publish
  split
  next hany =>
    obtain ⟨c, hc, hrevision⟩ := (Option.any_eq_true _ _).mp hany
    obtain ⟨snapshots', hlen', hid', hmerge'⟩ := h.current c hc
    have hc' := merge_of_revision (hlen'.trans hlen.symm) hid' hid hmerge'
      ((beq_iff_eq.mp hrevision).trans (merge_revision hmerge))
    rw [hmerge] at hc'
    exact .inr ⟨rfl, Except.ok.inj hc' ▸ hc⟩
  next => rw [if_neg (by simp [hcheck])]; exact .inl rfl

theorem CalmInv.readNext (h : CalmInv f m) (hread : m.readNext snapshots = some s) :
    m.latest[snapshots.length]? = some s ∧ Identified f snapshots.length s := by
  have hlatest := (Option.filter_eq_some_iff.mp hread).1
  exact ⟨hlatest, h.latest _ _ hlatest⟩

/-- Only the phase of a call of `Load` has changed. -/
theorem CalmInv.moved (h : CalmInv f m) {phase : LoadPhase} (hphase : LoadOk f m phase) :
    CalmInv f { m with loads := m.loads.set call phase } :=
  { h with loads := fun l hl =>
      (List.mem_or_eq_of_mem_set hl).elim (h.loads l) (fun he => he ▸ hphase) }

/-- A merge of identified snapshots is stored; if the loop runs, it is the merge of the latest. -/
theorem CalmInv.stored (h : CalmInv f m)
    (hmerge : ∃ snapshots, snapshots.length = m.latest.length ∧ VectorIdentified f snapshots ∧
      merge snapshots = .ok candidate)
    (hlatest : ∀ snapshots, m.watch = .looping snapshots → merge m.latest = .ok candidate) :
    CalmInv f { m with current := some candidate } := by
  refine { h with current := fun c hc => Option.some.inj hc ▸ hmerge, watch := ?_ }
  have hwatch := h.watch
  unfold WatchOk at hwatch ⊢
  cases hw : m.watch with
  | looping snapshots =>
    rw [hw] at hwatch
    obtain ⟨hlen, hid, hcovers, -⟩ := hwatch
    exact ⟨hlen, hid, hcovers, .inr ⟨candidate, rfl, .inr (hlatest snapshots hw)⟩⟩
  | _ => rw [hw] at hwatch; exact hwatch

theorem CalmInv.stepLoad (h : CalmInv f m) {fails : Bool}
    (hcalm : m.calm (.loadStep call fails) = true) : CalmInv f (m.stepLoad check call fails) := by
  unfold Manager.stepLoad
  cases hcall : m.loads[call]? with
  | none => exact h
  | some phase =>
    have hphase := h.loads phase (List.mem_of_getElem? hcall)
    cases phase with
    | reading snapshots =>
      obtain ⟨hlen, hid⟩ := hphase
      dsimp only
      split
      next hlt =>
        split
        next s hread =>
          split
          next => exact h.moved trivial
          next =>
            exact h.moved ⟨by simpa [Nat.succ_le_iff] using hlt, hid.snoc (h.readNext hread).2⟩
        next => exact h.moved trivial
      next hge =>
        split
        next => exact h.moved trivial
        next candidate hmerge => exact h.moved ⟨snapshots, by omega, hid, hmerge⟩
    | publishing candidate =>
      dsimp only
      split
      next hstored =>
        refine CalmInv.moved (m := { m with current := some candidate })
          (h.stored hphase ?_) trivial
        intro snapshots hw
        obtain ⟨read, hlen, hid, hmerge⟩ := hphase
        have hnew : m.current.any (fun c => c.revision == candidate.revision) = false := by
          by_contra hany
          simp [publish, Bool.eq_true_of_not_eq_false hany] at hstored
        simp only [calm, hw, hcall, hnew, Bool.or_false, beq_iff_eq] at hcalm
        exact merge_of_revision hlen hid h.latest hmerge hcalm
      next => exact h.moved trivial
    | returned => exact h

/-! ### A new snapshot -/

section Deliver

variable {i : Nat}

theorem deliver_of_ne (h : i ≠ source) : m.deliver source snapshot i = m.queue i := by
  unfold deliver
  split
  next => rw [Function.update_of_ne h]
  next => rfl

theorem deliver_self (h : m.watches source = true) :
    m.deliver source snapshot source = m.queue source ++ [snapshot] := by
  rw [deliver, if_pos h, Function.update_self]

theorem mem_deliver (h : s ∈ m.deliver source snapshot i) :
    s ∈ m.queue i ∨ i = source ∧ s = snapshot := by
  rcases eq_or_ne i source with rfl | hne
  · unfold deliver at h
    split at h
    next =>
      rw [Function.update_self, List.mem_append, List.mem_singleton] at h
      exact h.imp_right (fun he => ⟨rfl, he⟩)
    next => exact .inl h
  · rw [deliver_of_ne hne] at h
    exact .inl h

theorem Covers.deliver (h : m.Covers snapshots) (hw : m.watches source = true) :
    Covers { m with latest := m.latest.set source snapshot, queue := m.deliver source snapshot }
      snapshots := by
  intro i hi hnil
  dsimp only at hnil ⊢
  rcases eq_or_ne i source with rfl | hne
  · rw [deliver_self hw] at hnil
    exact absurd hnil (by simp)
  · rw [deliver_of_ne hne] at hnil
    rw [List.getElem?_set_ne (Ne.symm hne), h i hi hnil]

theorem WatchOk.deliver (h : WatchOk f m) (hsource : source < m.latest.length) :
    WatchOk f { m with
      latest := m.latest.set source snapshot, queue := m.deliver source snapshot } := by
  unfold WatchOk at h ⊢
  dsimp only
  rw [List.length_set]
  cases hw : m.watch with
  | idle | establishing => trivial
  | reading snapshots =>
    rw [hw] at h
    obtain ⟨hlen, hvector, hc⟩ := h
    exact ⟨hlen, hvector, hc.deliver (by rw [watches, hw])⟩
  | publishing snapshots candidate =>
    rw [hw] at h
    obtain ⟨hlen, hvector, hc, hmerge⟩ := h
    exact ⟨hlen, hvector, hc.deliver (by rw [watches, hw]), hmerge⟩
  | looping snapshots =>
    have hwatches : m.watches source = true := by rw [watches, hw]
    rw [hw] at h
    obtain ⟨hlen, hvector, hc, -⟩ := h
    exact ⟨hlen, hvector, hc.deliver hwatches,
      .inl ⟨source, hsource, by rw [deliver_self hwatches]; simp⟩⟩

theorem CalmInv.update (h : CalmInv f m) (hid : Identified f source snapshot)
    (hsource : source < m.latest.length) :
    CalmInv f { m with
      latest := m.latest.set source snapshot, queue := m.deliver source snapshot } := by
  refine ⟨h.latest.set hid, ?_, ?_, ?_, h.watch.deliver hsource, ?_⟩
  · intro i s hs
    rcases mem_deliver hs with hs | ⟨rfl, rfl⟩
    · exact h.queued i s hs
    · exact hid
  · intro i hi hw hq
    dsimp only at hi hq ⊢
    rw [List.length_set] at hi
    rcases eq_or_ne i source with rfl | hne
    · rw [deliver_self (m := m) hw, List.getLast?_append, List.getElem?_set_self hi]
      rfl
    · rw [deliver_of_ne hne] at hq ⊢
      rw [List.getElem?_set_ne (Ne.symm hne)]
      exact h.last i hi hw hq
  · intro c hc
    rw [List.length_set]
    exact h.current c hc
  · intro l hl
    have hload := h.loads l hl
    unfold LoadOk at hload ⊢
    rw [List.length_set]
    exact hload

end Deliver

/-! ### The watch loop -/

theorem CalmInv.watching (h : CalmInv f m) (hphase : WatchOk f { m with watch := phase })
    (hwatches : ∀ i < m.latest.length, watches { m with watch := phase } i = true →
      m.watches i = true) :
    CalmInv f { m with watch := phase } :=
  { h with
    last := fun i hi hw => h.last i hi (hwatches i hi hw)
    watch := hphase }

theorem CalmInv.idle (h : CalmInv f m) : CalmInv f { m with watch := .idle } :=
  h.watching trivial nofun

/-- A new watcher delivers nothing or the latest snapshot. -/
theorem CalmInv.established (h : CalmInv f m) {count : Nat} (hw : m.watch = .establishing count)
    {initial : Bool} :
    CalmInv f { m with
      watch := .establishing (count + 1)
      queue := Function.update m.queue count
        (if initial then m.latest[count]?.toList else []) } := by
  refine ⟨h.latest, ?_, ?_, h.current, trivial, h.loads⟩
  · intro i s hs
    dsimp only at hs
    rcases eq_or_ne i count with rfl | hne
    · rw [Function.update_self] at hs
      split at hs
      next => exact h.latest i s (Option.mem_toList.mp hs)
      next => cases hs
    · rw [Function.update_of_ne hne] at hs
      exact h.queued i s hs
  · intro i hi hwatches hq
    dsimp only at hi hq ⊢
    rcases eq_or_ne i count with rfl | hne
    · rw [Function.update_self] at hq ⊢
      split
      next => rw [List.getElem?_eq_getElem hi]; rfl
      next hn => exact absurd (if_neg hn) hq
    · rw [Function.update_of_ne hne] at hq ⊢
      have hlt : i < count + 1 := by simpa [watches] using hwatches
      refine h.last i hi ?_ hq
      simp only [watches, hw, decide_eq_true_eq]
      omega

theorem Covers.snoc (h : m.Covers snapshots)
    (hs : m.latest[snapshots.length]? = some s) : m.Covers (snapshots ++ [s]) := by
  intro i hi hnil
  rw [List.length_append, List.length_singleton] at hi
  rcases Nat.lt_or_ge i snapshots.length with hlt | hge
  · rw [List.getElem?_append_left hlt, h i hlt hnil]
  · obtain rfl : i = snapshots.length := by omega
    rw [List.getElem?_concat_length, hs]

theorem CalmInv.stepWatch (h : CalmInv f m) (hcheck : ∀ s, check s = true) (fails initial : Bool) :
    CalmInv f (m.stepWatch check fails initial) := by
  have hwatch := h.watch
  unfold Manager.stepWatch
  cases hw : m.watch with
  | idle | looping => exact h
  | establishing count =>
    dsimp only
    split
    next hlt =>
      split
      next => exact h.idle
      next => exact h.established hw
    next hge =>
      refine h.watching ⟨by simp, .nil, fun i hi => absurd hi (by simp)⟩ (fun i hi _ => ?_)
      simp only [watches, hw, decide_eq_true_eq]
      omega
  | reading snapshots =>
    unfold WatchOk at hwatch
    rw [hw] at hwatch
    obtain ⟨hlen, hid, hcovers⟩ := hwatch
    have hwatches : ∀ i, m.watches i = true := fun i => by simp only [watches, hw]
    dsimp only
    split
    next hlt =>
      split
      next s hread =>
        split
        next => exact h.idle
        next =>
          obtain ⟨hlatest, hs⟩ := h.readNext hread
          have hle : (snapshots ++ [s]).length ≤ m.latest.length := by
            simpa [Nat.succ_le_iff] using hlt
          exact h.watching ⟨hle, hid.snoc hs, hcovers.snoc hlatest⟩ (fun i _ _ => hwatches i)
      next => exact h.idle
    next hge =>
      split
      next => exact h.idle
      next candidate hmerge =>
        exact h.watching ⟨by dsimp only; omega, hid, hcovers, hmerge⟩ (fun i _ _ => hwatches i)
  | publishing snapshots candidate =>
    unfold WatchOk at hwatch
    rw [hw] at hwatch
    obtain ⟨hlen, hid, hcovers, hmerge⟩ := hwatch
    have hwatches : ∀ i, m.watches i = true := fun i => by simp only [watches, hw]
    dsimp only
    rcases h.publish_eq hcheck hlen hid hmerge with hp | ⟨hp, hcurrent⟩
    · rw [hp]
      have hstored := h.stored ⟨snapshots, hlen, hid, hmerge⟩ (fun s hs => by
        rw [hw] at hs; cases hs)
      exact hstored.watching ⟨hlen, hid, hcovers, .inr ⟨candidate, rfl, .inl hmerge⟩⟩
        (fun i _ _ => hwatches i)
    · rw [hp]
      exact h.watching ⟨hlen, hid, hcovers, .inr ⟨candidate, hcurrent, .inl hmerge⟩⟩
        (fun i _ _ => hwatches i)

/-! ### An event -/

theorem set_of_getElem? (h : snapshots[source]? = some snapshot) :
    snapshots.set source snapshot = snapshots := by
  obtain ⟨hlt, rfl⟩ := List.getElem?_eq_some_iff.mp h
  exact List.set_getElem_self hlt

theorem Covers.event
    (h : m.Covers snapshots) (hlen : snapshots.length = m.latest.length)
    (hq : m.queue source = snapshot :: rest)
    (hlast : source < m.latest.length → (m.queue source).getLast? = m.latest[source]?) :
    Covers { m with queue := Function.update m.queue source rest }
      (snapshots.set source snapshot) := by
  intro i hi hnil
  rw [List.length_set] at hi
  dsimp only at hnil ⊢
  rcases eq_or_ne i source with rfl | hne
  · rw [Function.update_self] at hnil
    rw [← hlast (hlen ▸ hi), hq, hnil, List.getElem?_set_self hi]
    rfl
  · rw [Function.update_of_ne hne] at hnil
    rw [List.getElem?_set_ne (Ne.symm hne), h i hi hnil]

/-- The first event of the queue is taken. -/
theorem CalmInv.taken (h : CalmInv f m) (hq : m.queue source = snapshot :: rest)
    (hwatches : ∀ i, m.watches i = true)
    (hphase : WatchOk f { m with queue := Function.update m.queue source rest, watch := phase }) :
    CalmInv f { m with queue := Function.update m.queue source rest, watch := phase } := by
  refine ⟨h.latest, ?_, ?_, h.current, hphase, h.loads⟩
  · intro i s hs
    dsimp only at hs
    rcases eq_or_ne i source with rfl | hne
    · rw [Function.update_self] at hs
      exact h.queued i s (by rw [hq]; exact List.mem_cons_of_mem _ hs)
    · rw [Function.update_of_ne hne] at hs
      exact h.queued i s hs
  · intro i hi _ hnil
    dsimp only at hi hnil ⊢
    rcases eq_or_ne i source with rfl | hne
    · rw [Function.update_self] at hnil ⊢
      rw [← h.last i hi (hwatches i) (by rw [hq]; exact List.cons_ne_nil _ _), hq,
        List.getLast?_cons_of_ne_nil hnil]
    · rw [Function.update_of_ne hne] at hnil ⊢
      exact h.last i hi (hwatches i) hnil

theorem CalmInv.process (h : CalmInv f m) (hcheck : ∀ s, check s = true)
    (hcalm : m.calm (.event source) = true) : CalmInv f (m.process check source) := by
  have hwatch := h.watch
  unfold Manager.process
  cases hw : m.watch with
  | looping snapshots =>
    cases hq : m.queue source with
    | nil => exact h
    | cons snapshot rest =>
      unfold WatchOk at hwatch
      rw [hw] at hwatch
      obtain ⟨hlen, hid, hcovers, -⟩ := hwatch
      have hwatches : ∀ i, m.watches i = true := fun i => by simp only [watches, hw]
      have hsnapshot : Identified f source snapshot :=
        h.queued source snapshot (by rw [hq]; exact List.mem_cons_self)
      have hset : VectorIdentified f (snapshots.set source snapshot) := hid.set hsnapshot
      have hlenset : (snapshots.set source snapshot).length = m.latest.length := by
        rw [List.length_set, hlen]
      have hcovers' := hcovers.event hlen hq
        (fun hlt => h.last source hlt (hwatches source) (by rw [hq]; exact List.cons_ne_nil _ _))
      dsimp only
      cases hmerge : merge (snapshots.set source snapshot) with
      | error => simp [calm, hw, hq, hmerge] at hcalm
      | ok candidate =>
        dsimp only
        rcases h.publish_eq hcheck hlenset hset hmerge with hp | ⟨hp, hcurrent⟩
        · have hpublishing : CalmInv f { m with
              queue := Function.update m.queue source rest
              watch := .publishing (snapshots.set source snapshot) candidate } :=
            h.taken hq hwatches ⟨hlenset, hset, hcovers', hmerge⟩
          have hlooping := hpublishing.stepWatch hcheck false false
          simp only [Manager.stepWatch, hp] at hlooping ⊢
          exact hlooping
        · -- The candidate is published already, so the loop knows the snapshot.
          have hknown : snapshots[source]? = some snapshot := by
            simp only [calm, hw, hq, hmerge, hcurrent, Option.any_some, beq_self_eq_true] at hcalm
            obtain ⟨s, hs, hrevision⟩ := (Option.any_eq_true _ _).mp hcalm
            rw [hs, Identified.ext (hid source s hs) hsnapshot (beq_iff_eq.mp hrevision)]
          rw [set_of_getElem? hknown] at hcovers' hmerge
          have hlooping : CalmInv f { m with
              queue := Function.update m.queue source rest
              watch := .looping snapshots } :=
            h.taken hq hwatches ⟨hlen, hid, hcovers', .inr ⟨candidate, hcurrent, .inl hmerge⟩⟩
          rw [hp]
          exact hlooping
  | _ => exact h

theorem CalmInv.exec (h : CalmInv f m) (hcheck : ∀ s, check s = true) {i : Input}
    (hcalm : m.calm i = true)
    (hid : ∀ source snapshot, i = .update source snapshot → Identified f source snapshot) :
    CalmInv f (Manager.exec check m i).2 := by
  cases i with
  | update source snapshot =>
    simp only [Manager.exec]
    split
    next hlt => exact h.update (hid source snapshot rfl) hlt
    next => exact h
  | load => exact { h with loads := forall_mem_snoc.mpr ⟨h.loads, Nat.zero_le _, .nil⟩ }
  | loadStep call fails => exact h.stepLoad hcalm
  | watch =>
    simp only [Manager.exec]
    split
    next => exact h.watching trivial (fun i _ hi => by simp [watches] at hi)
    next => exact h
  | watchStep fails initial => exact h.stepWatch hcheck fails initial
  | event source => exact h.process hcheck hcalm
  | stop =>
    simp only [Manager.exec]
    split
    next => exact h.idle
    next => exact h

theorem calmInv_new {latest : List Snapshot} (h : VectorIdentified f latest) :
    CalmInv f (.new latest) where
  latest := h
  queued := nofun
  last := nofun
  current := nofun
  watch := trivial
  loads := nofun

end Steps

/-! ## Convergence -/

/-- The machine in which the calls of `Load` and the loop keep out of each other's way. -/
abbrev calmMachine (check : Snapshot → Bool) : Machine Manager Input Unit :=
  (machine check).restrict fun m i => m.calm i = true

theorem calmInv_of_run {check : Snapshot → Bool} (hcheck : ∀ s, check s = true)
    {history : List (Event Manager Input Unit)} {m : Manager}
    (h : (calmMachine check).Run history m)
    (hsources : SourcesIdentified f history m) : CalmInv f m := by
  refine h.invariant (I := fun history m => SourcesIdentified f history m →
    CalmInv f m) ?_ ?_ hsources
  · rintro _ ⟨latest, rfl⟩ hsources
    exact calmInv_new hsources.initially
  · intro history m i ih hmay hsources
    have hbefore : SourcesIdentified f history m :=
      ⟨by simpa using hsources.initially, fun source snapshot hmem =>
        hsources.updates source snapshot
          (by rw [List.map_append]; exact List.mem_append_left _ hmem)⟩
    refine (ih hbefore).exec hcheck hmay.2 ?_
    rintro source snapshot rfl
    exact hsources.updates source snapshot (by simp)

/-- Once the loop of `Watch` has taken every event, the current snapshot is the merge of the latest
ones. -/
theorem converges {f : Contents} {check : Snapshot → Bool} (hcheck : ∀ s, check s = true)
    {history : List (Event Manager Input Unit)} {m : Manager}
    (hrun : (calmMachine check).Run history m)
    (hsources : SourcesIdentified f history m) (hsettled : m.settled = true) :
    ∃ merged, merge m.latest = .ok merged ∧ m.current = some merged := by
  have hinv := calmInv_of_run hcheck hrun hsources
  have hwatch := hinv.watch
  obtain ⟨hloops, hempty⟩ := Bool.and_eq_true_iff.mp hsettled
  have hqueue : ∀ i < m.latest.length, m.queue i = [] := by
    intro i hi
    exact List.isEmpty_iff.mp (List.all_eq_true.mp hempty i (List.mem_range.mpr hi))
  unfold WatchOk at hwatch
  unfold loops at hloops
  split at hloops
  next snapshots hw =>
    rw [hw] at hwatch
    obtain ⟨hlen, hid, hcovers, hpending | ⟨c, hc, hmerge⟩⟩ := hwatch
    · obtain ⟨i, hi, hne⟩ := hpending
      exact absurd (hqueue i hi) hne
    · -- The vector of the loop is the latest one.
      have hlatest : snapshots = m.latest := by
        refine List.ext_getElem? fun i => ?_
        rcases Nat.lt_or_ge i snapshots.length with hlt | hge
        · exact hcovers i hlt (hqueue i (hlen ▸ hlt))
        · rw [List.getElem?_eq_none hge, List.getElem?_eq_none (hlen ▸ hge)]
      rw [hlatest, or_self] at hmerge
      exact ⟨c, hmerge, hc⟩
  next => cases hloops

end Manager

/-! ## Two sources -/

namespace TwoSources

open Manager

/-- An empty snapshot with this revision. -/
def snapshot (revision : String) : Snapshot := ⟨bytesOf revision, []⟩

def start : Manager := .new [snapshot "a1", snapshot "b1"]

/-- `Watch` up to its loop. -/
def watchInputs : List Input := .watch :: List.replicate 7 (.watchStep false false)

/-- A call of `Load` from its start to its return. -/
def loadInputs : List Input := .load :: List.replicate 4 (.loadStep 0 false)

/-- A new snapshot is taken by the loop, and then `Load` finds it. -/
def calmInputs : List Input :=
  List.flatten [watchInputs, [.update 0 (snapshot "a2"), .event 0], loadInputs]

/-- `Load` publishes the new snapshot of a source before the loop takes its event; the loop does not
keep it, and publishes the old one with the next event of the other source. -/
def inputs : List Input :=
  List.flatten [watchInputs, [.update 0 (snapshot "a2")], loadInputs,
    [.event 0, .update 1 (snapshot "b2"), .event 1]]

abbrev accepts (_ : Snapshot) : Bool := true

instance (history : List (Event Manager Input Unit)) (m : Manager) (i : Input) :
    Decidable ((calmMachine accepts).may history m i) :=
  inferInstanceAs (Decidable (True ∧ m.calm i = true))

theorem evaluated : ((calmMachine accepts).Allows [] start calmInputs ∧
      ((calmMachine accepts).final start calmInputs).settled = true) ∧
    ((machine accepts).final start inputs).settled = true ∧
    ((machine accepts).final start inputs).loads.all LoadPhase.done = true ∧
    (merge ((machine accepts).final start inputs).latest).toOption.map Snapshot.revision =
      some (bytesOf "2:a2|2:b2") ∧
    ((machine accepts).final start inputs).current.map Snapshot.revision =
      some (bytesOf "2:a1|2:b2") := by
  decide +kernel

/-- The merge of the latest snapshots is current after the calm run. -/
theorem calm_converges : ∃ merged, merge ((calmMachine accepts).final start calmInputs).latest =
    .ok merged ∧ ((calmMachine accepts).final start calmInputs).current = some merged := by
  obtain ⟨⟨hallows, hsettled⟩, -⟩ := evaluated
  have hrun := Machine.Run.extend (M := calmMachine accepts) (.init ⟨_, rfl⟩) hallows
  refine converges (f := fun _ _ => []) (fun _ => rfl) hrun ⟨?_, ?_⟩ hsettled
  · intro i s hs
    match i, hs with
    | 0, hs => exact Option.some.inj hs ▸ rfl
    | 1, hs => exact Option.some.inj hs ▸ rfl
  · intro source s hs
    obtain ⟨-, rfl⟩ : source = 0 ∧ s = snapshot "a2" := by
      simpa [calmInputs, watchInputs, loadInputs] using hs
    rfl

/-- After the other run the current snapshot is not the merge of the latest ones. -/
theorem old_snapshot_again :
    ∃ (history : List (Event Manager Input Unit)) (m : Manager) (merged current : Snapshot),
    (machine accepts).Run history m ∧ m.settled = true ∧ m.loads.all LoadPhase.done = true ∧
      merge m.latest = .ok merged ∧ m.current = some current ∧ current ≠ merged := by
  obtain ⟨-, hsettled, hdone, hmerge, hcurrent⟩ := evaluated
  have hrun := Machine.Run.extend (M := machine accepts) (.init ⟨_, rfl⟩)
    (.of_forall (fun _ _ _ => trivial) [] start inputs)
  obtain ⟨merged, hmerged, hlatest⟩ := Option.map_eq_some_iff.mp hmerge
  have hok : merge ((machine accepts).final start inputs).latest = .ok merged := by
    cases hm : merge ((machine accepts).final start inputs).latest with
    | error => rw [hm] at hmerged; cases hmerged
    | ok => rw [hm] at hmerged; rw [Option.some.inj hmerged]
  obtain ⟨current, hpublished, hold⟩ := Option.map_eq_some_iff.mp hcurrent
  refine ⟨_, _, merged, current, hrun, hsettled, hdone, hok, hpublished, ?_⟩
  rintro rfl
  rw [hlatest] at hold
  exact absurd hold (by decide)

end TwoSources

end Keelith.Config
