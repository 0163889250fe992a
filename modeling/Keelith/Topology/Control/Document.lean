import Keelith.Topology.Canonical
import Keelith.Topology.Control.Source
import Mathlib.Data.Nat.Digits.Defs

/-!
# Control documents

`programmable/topology/planfile/planfile.go` and `MarshalDocument`, `ParseDocument` of
`control/source.go`: a candidate as a document, and back.

- **Texts**: `encoding/json` and `encoding/base64` read back what they have written, so a payload is
  the value that it encodes (`PlanDocument`, `Envelope`), and the checks of keys and of trailing
  data, which such a text passes, are left out. What remains of a text is its size: that of a plan
  is a parameter (`size`), that of an envelope is computed from it (`Envelope.bytes`).
- **Plans** that are read back say the same (`parse_marshal`), and have the same hash.
- The reader wants a signature of full length or none; `NewCandidate` and the writer do not.
-/

namespace Keelith.Topology

/-- `BindingMode` of a text. -/
def BindingMode.ofText (text : String) : BindingMode :=
  if text = "AUTO" then .auto else if text = "LOCAL" then .local else if text =
    "REMOTE" then .remote else .other text

namespace Planfile

def apiVersion : String := "keelith.dev/topology/v1alpha1"

def maximumDocumentBytes : Nat := 1024 * 1024

/-- `document`; a slice may be nil. -/
structure PlanDocument where
  apiVersion : String
  epoch : UInt64
  placements : Option (List String)
  components : Option (List (String × String))
  dependencies : Option (List (String × String × String))
  traffic : Option (List EpochWeight)

/-- `ErrInvalidDocument` and `ErrDocumentTooLarge`. -/
inductive DocumentError where
  | invalid
  | tooLarge

/-- The loop over the dependencies. -/
def collectEdges : Map ComponentID (Map ComponentID BindingMode) → List (String × String × String) →
    Option (Map ComponentID (Map ComponentID BindingMode))
  | m, [] => some m
  | m, (source, target, mode) :: rest =>
    let targets := (m.lookup source).getD ∅
    if target ∈ targets then none
    else collectEdges (m.insert source (targets.insert target (.ofText mode))) rest

variable (size : PlanDocument → Nat)

def parse (input : PlanDocument) : Except DocumentError Plan :=
  if maximumDocumentBytes < size input then .error .tooLarge
  else match input.placements, input.components, input.dependencies with
    | some placements, some components, some dependencies =>
      if input.apiVersion ≠ apiVersion ∨ placements.length = 0 ∨ 1024 < placements.length ∨
        components.length = 0 ∨
          4096 < components.length ∨ 16 * 1024 < dependencies.length ∨
            64 < (input.traffic.getD []).length ∨
          ¬ placements.Nodup then .error .invalid
      else match Map.collect some ∅ components, collectEdges ∅ dependencies with
        | some components, some dependencies =>
          let plan : Plan := ⟨input.epoch, placements.toFinset, components, dependencies,
            input.traffic⟩
          match activate plan with
          | .error _ => .error .invalid
          | .ok _ => .ok plan
        | _, _ => .error .invalid
    | _, _, _ => .error .invalid

/-- `Marshal`; its text ends with a newline. -/
def marshal (plan : Plan) : Except DocumentError PlanDocument :=
  if plan.placements.card = 0 ∨ 1024 < plan.placements.card ∨ plan.components.size = 0 ∨
    4096 < plan.components.size then
    .error .invalid
  else match activate plan with
    | .error _ => .error .invalid
    | .ok _ =>
      let output : PlanDocument :=
        ⟨apiVersion, plan.epoch, some plan.placements.sort, some plan.components.sorted,
          some (edgeTexts plan.dependencies), plan.traffic.map sortWeights⟩
      if 16 * 1024 < (edgeTexts plan.dependencies).length then .error .invalid
      else if maximumDocumentBytes < size output + 1 then .error .tooLarge
      else .ok output

/-! ## Plans are read back -/

theorem edge_insert (m : Map ComponentID (Map ComponentID BindingMode))
    (source target : ComponentID) (mode : BindingMode) (s t : ComponentID) :
    edge (m.insert source (((m.lookup source).getD ∅).insert target mode)) s t =
      if s = source ∧ t = target then some mode else edge m s t := by
  rw [edge, Map.lookup_insert_eq]
  by_cases hs : s = source
  · subst hs
    rw [if_pos rfl, Option.bind_some, Map.lookup_insert_eq, lookup_targets]
    simp
  · rw [if_neg hs, if_neg fun h => hs h.1, edge]

theorem ofText_text {mode : BindingMode} (h : ∀ text, mode ≠ .other text) :
    BindingMode.ofText mode.text = mode := by
  cases mode with
  | other text => exact absurd rfl (h text)
  | _ => rfl

theorem nodup_edges (dependencies : Map ComponentID (Map ComponentID BindingMode)) :
    ((edges dependencies).map fun e => (e.1, e.2.1)).Nodup := by
  rw [edges, List.map_flatMap, List.nodup_flatMap]
  constructor
  · intro source _
    rw [List.map_map]
    exact (Finset.sort_nodup _ _).map fun a b h => (Prod.mk.inj h).2
  · refine (Finset.sort_nodup _ _).imp fun {a b} hne => ?_
    simp only [List.disjoint_left, List.mem_map]
    rintro _ ⟨e, ⟨t, -, rfl⟩, rfl⟩ ⟨e', ⟨t', -, rfl⟩, heq⟩
    exact hne (Prod.mk.inj heq).1.symm

/-- The loop keeps what it has and adds the edges; every source that it adds has an edge. -/
theorem collectEdges_spec {l : List (ComponentID × ComponentID × BindingMode)}
    (hmodes : ∀ e ∈ l, ∀ text, e.2.2 ≠ .other text)
    (hnodup : (l.map fun e => (e.1, e.2.1)).Nodup)
    (m : Map ComponentID (Map ComponentID BindingMode))
    (hnew : ∀ e ∈ l, edge m e.1 e.2.1 = none)
    (hsources : ∀ s ∈ m, ∃ t mode, edge m s t = some mode) :
    ∃ result, collectEdges m (l.map fun e => (e.1, e.2.1, e.2.2.text)) = some result ∧
      (∀ s t mode, edge result s t = some mode ↔ edge m s t = some mode ∨ (s, t, mode) ∈ l) ∧
      ∀ s ∈ result, ∃ t mode, edge result s t = some mode := by
  induction l generalizing m with
  | nil => exact ⟨m, rfl, by simp, hsources⟩
  | cons e l ih =>
    obtain ⟨source, target, mode⟩ := e
    obtain ⟨hnotin, hnodup⟩ := List.nodup_cons.mp hnodup
    have hnone : edge m source target = none := hnew _ List.mem_cons_self
    have hedge := edge_insert m source target mode
    obtain ⟨result, hresult, hedges, hall⟩ :=
      ih (fun e he => hmodes e (List.mem_cons_of_mem _ he)) hnodup
      (m.insert source (((m.lookup source).getD ∅).insert target mode)) (fun e he => by
        rw [hedge, if_neg, hnew e (List.mem_cons_of_mem _ he)]
        rintro ⟨hs, ht⟩
        exact hnotin (List.mem_map.mpr ⟨e, he, by rw [hs, ht]⟩)) (fun s hs => by
        rcases Finmap.mem_insert.mp hs with rfl | hs
        · exact ⟨target, mode, by rw [hedge, if_pos ⟨rfl, rfl⟩]⟩
        · obtain ⟨t, found, hfound⟩ := hsources s hs
          by_cases heq : s = source ∧ t = target
          · exact ⟨target, mode, by rw [hedge, if_pos ⟨heq.1, rfl⟩]⟩
          · exact ⟨t, found, by rw [hedge, if_neg heq, hfound]⟩)
    refine ⟨result, ?_, fun s t found => ?_, hall⟩
    · have hnotmem : target ∉ (m.lookup source).getD ∅ := by
        rw [← Finmap.lookup_eq_none, lookup_targets, hnone]
      rw [List.map_cons, collectEdges]
      rw [if_neg hnotmem, ofText_text (hmodes _ List.mem_cons_self)]
      exact hresult
    · rw [hedges, hedge]
      by_cases heq : s = source ∧ t = target
      · obtain ⟨rfl, rfl⟩ := heq
        simp [hnone, eq_comm]
      · have hne : (s, t, found) ≠ (source, target, mode) :=
          fun h => heq ⟨congrArg Prod.fst h, congrArg (·.2.1) h⟩
        rw [if_neg heq, List.mem_cons]
        simp only [hne, false_or]

/-- The same edges without a source that has none. -/
theorem lookup_eq_ite {m m' : Map ComponentID (Map ComponentID BindingMode)}
    (hedges : ∀ s t, edge m' s t = edge m s t)
    (hsources : ∀ s ∈ m', ∃ t mode, edge m' s t = some mode)
    (source : ComponentID) : m'.lookup source = if m.lookup source =
    some ∅ then none else m.lookup source := by
  have htargets : (m'.lookup source).getD ∅ = (m.lookup source).getD ∅ :=
    Finmap.ext_lookup fun target => by rw [lookup_targets, lookup_targets, hedges]
  cases hfound : m'.lookup source with
  | none =>
    cases hm : m.lookup source with
    | none => rfl
    | some targets => rw [if_pos (by simpa [hfound, hm] using htargets.symm)]
  | some targets =>
    obtain ⟨target, mode, hedge⟩ := hsources source (Finmap.mem_iff.mpr ⟨targets, hfound⟩)
    have hne : targets ≠ ∅ := by
      rintro rfl
      rw [edge, hfound] at hedge
      cases hedge
    cases hm : m.lookup source with
    | none => exact absurd (by simpa [hfound, hm] using htargets) hne
    | some other =>
      obtain rfl : targets = other := by simpa [hfound, hm] using htargets
      rw [if_neg (by simpa using hne)]

/-- The first plan without its empty maps of edges, and with its table sorted. -/
structure Canonical (plan plan' : Plan) : Prop where
  epoch : plan'.epoch = plan.epoch
  placements : plan'.placements = plan.placements
  components : plan'.components = plan.components
  dependencies : ∀ source, plan'.dependencies.lookup source =
    if plan.dependencies.lookup source = some ∅ then none else plan.dependencies.lookup source
  traffic : plan'.traffic = plan.traffic.map sortWeights

section

variable {plan plan' : Plan}

theorem Canonical.same (h : Canonical plan plan') : plan.Same plan' := by
  refine ⟨h.epoch.symm, h.placements.symm, h.components.symm, fun source target => ?_, ?_⟩
  · rw [edge, edge, h.dependencies]
    split
    next hempty => rw [hempty, Option.bind_some, Finmap.lookup_empty, Option.bind_none]
    next => rfl
  · rw [h.traffic]
    cases plan.traffic with
    | none => exact .none
    | some table => exact .some (sortWeights_perm_self table).symm

/-- It is accepted too. -/
theorem Canonical.activate (h : Canonical plan plan') {snapshot : Snapshot}
    (hfirst : activate plan = .ok snapshot) :
    activate plan' = .ok { clonePlan plan' with hash := canonicalHash (clonePlan plan') } := by
  have hsorted : (clonePlan plan').traffic = (clonePlan plan).traffic := by
    have hagain (table : List EpochWeight) : sortWeights (sortWeights table) = sortWeights table :=
      (List.pairwise_insertionSort (fun a b : EpochWeight => a.epoch ≤ b.epoch)
        table).insertionSort_eq
    simp [clonePlan, h.traffic, Function.comp_def, hagain]
  refine activate_of_valid ?_
  unfold Topology.activate at hfirst
  dsimp only at hfirst
  split at hfirst
  · cases hfirst
  next hvalid =>
    unfold validateSnapshot at hvalid ⊢
    rw [hsorted]
    simp only [guard_eq_ok, Bool.not_eq_true', Bool.not_eq_false, clonePlan, h.epoch, h.placements,
      h.components] at hvalid ⊢
    obtain ⟨hzero, hcard, hsize, hvalidPlacements, hvalidComponents, hdependencies,
      hvalidTraffic⟩ := hvalid
    refine ⟨hzero, hcard, hsize, hvalidPlacements, hvalidComponents,
      Map.all_iff.mpr fun s targets hs => ?_, hvalidTraffic⟩
    rw [h.dependencies] at hs
    split at hs
    · cases hs
    · exact Map.all_iff.mp hdependencies s targets hs

end

/-- What `Marshal` writes is accepted by `Parse`. -/
theorem parse_marshal {plan : Plan} {document : PlanDocument}
    (h : marshal size plan = .ok document) :
    size document + 1 ≤ maximumDocumentBytes ∧ ∃ plan' first second,
      parse size document = .ok plan' ∧
      activate plan = .ok first ∧ activate plan' = .ok second ∧ Canonical plan plan' := by
  unfold marshal at h
  rw [guard_eq_ok] at h
  obtain ⟨hcounts, h⟩ := h
  split at h
  · cases h
  next first hfirst =>
    rw [guard_eq_ok, guard_eq_ok] at h
    obtain ⟨hlength, hbytes, h⟩ := h
    cases h
    obtain ⟨hmodes, htable⟩ := activate_checked hfirst
    obtain ⟨dependencies, hcollect, hedges, hsources⟩ := collectEdges_spec
      (fun e he => hmodes e.1 e.2.1 e.2.2 (mem_edges.mp he)) (nodup_edges plan.dependencies) ∅
      (fun e _ => rfl) (fun s hs => absurd hs Finmap.notMem_empty)
    have hcanonical : Canonical plan
        ⟨plan.epoch, plan.placements.sort.toFinset, plan.components, dependencies,
          plan.traffic.map sortWeights⟩ := by
      refine ⟨rfl, Finset.sort_toFinset _ _, rfl, lookup_eq_ite (fun s t => Option.ext fun mode =>
        ?_) hsources, rfl⟩
      rw [hedges, mem_edges]
      exact or_iff_right (by rintro ⟨⟩)
    refine ⟨Nat.not_lt.mp hbytes, _, first, _, ?_, hfirst, hcanonical.activate hfirst, hcanonical⟩
    have hcomponents : Map.collect some ∅ plan.components.sorted = some plan.components := by
      rw [← List.map_id plan.components.sorted]
      exact Map.collect_sorted fun _ _ _ => rfl
    have htraffic : ((plan.traffic.map sortWeights).getD []).length ≤ 64 := by
      cases hfound : plan.traffic with
      | none => exact Nat.zero_le _
      | some table => simpa [sortWeights, maximumTrafficEpochs] using (htable table hfound).2.1
    have hchecks : ¬ (apiVersion ≠ apiVersion ∨ plan.placements.sort.length = 0 ∨
        1024 < plan.placements.sort.length ∨
          plan.components.sorted.length = 0 ∨ 4096 < plan.components.sorted.length ∨
          16 * 1024 < (edgeTexts plan.dependencies).length ∨
            64 < ((plan.traffic.map sortWeights).getD []).length ∨
          ¬ plan.placements.sort.Nodup) := by
      rw [Finset.length_sort, Map.length_sorted]
      have hnodup := plan.placements.sort_nodup (· ≤ ·)
      push Not at hcounts ⊢
      exact ⟨rfl, hcounts.1, hcounts.2.1, hcounts.2.2.1, hcounts.2.2.2, Nat.not_lt.mp hlength,
        htraffic, hnodup⟩
    unfold parse
    rw [if_neg (by omega)]
    dsimp only
    rw [if_neg hchecks, hcomponents, edgeTexts, hcollect]
    dsimp only
    rw [hcanonical.activate hfirst]

/-- Plans that say the same have the same document. -/
theorem marshal_congr {p q : Plan} {first second : Snapshot} (hfirst : activate p = .ok first)
    (hsecond : activate q = .ok second) (h : p.Same q) : marshal size p = marshal size q := by
  unfold marshal
  rw [hfirst, hsecond, h.epoch, h.placements, h.components, h.sorted_traffic hfirst hsecond,
    edgeTexts, edges_congr h.edges, edgeTexts]

/-- **Plan files are canonical**: what `Marshal` writes is read back without the empty maps of edges
and with a sorted table, and written again as it was. Without a collision, two plans have the same
document exactly if they have the same hash. -/
theorem marshal_canonical {plan : Plan} {document : PlanDocument}
    (h : marshal size plan = .ok document) :
    (∃ plan', parse size document = .ok plan' ∧ Canonical plan plan' ∧
      marshal size plan' = .ok document) ∧
      ∀ {other document' first second}, marshal size other = .ok document' →
        activate plan = .ok first →
        activate other = .ok second → CollisionFree {plan.message, other.message} →
          (document = document' ↔ first.hash = second.hash) := by
  obtain ⟨-, plan', first, second, hparse, hfirst, hsecond, hcanonical⟩ := parse_marshal size h
  have hsame := hcanonical.same
  refine ⟨⟨plan', hparse, hcanonical, by rw [← marshal_congr size hfirst hsecond hsame, h]⟩, ?_⟩
  intro other document' first' third h' hfirst' hthird hS
  obtain rfl := Except.ok.inj (hfirst.symm.trans hfirst')
  obtain ⟨-, other', -, fourth, hparse', -, hfourth, hcanonical'⟩ := parse_marshal size h'
  rw [hash_eq_iff hS hfirst hthird (.inl rfl) (.inr rfl)]
  constructor
  · rintro rfl
    -- both are read back as one plan
    obtain rfl := Except.ok.inj (hparse.symm.trans hparse')
    exact ((message_eq_iff hfirst hsecond).mpr hsame).trans
      ((message_eq_iff hthird hsecond).mpr hcanonical'.same).symm
  · intro hmessage
    rw [marshal_congr size hfirst hthird ((message_eq_iff hfirst hthird).mp hmessage), h'] at h
    exact (Except.ok.inj h).symm

end Planfile

namespace Control

open Planfile

def apiVersion : String := "keelith.dev/topology-control/v1alpha1"

def maxDocumentBytes : Nat := 2 * 1024 * 1024

/-- `document`; the signature is the bytes of its base64 text. -/
structure Envelope where
  apiVersion : String
  revision : UInt64
  hash : String
  signature : List UInt8
  plan : PlanDocument

variable (size : PlanDocument → Nat)

/-- The size of the JSON text of an envelope. -/
def Envelope.bytes (e : Envelope) : Nat :=
  ("\x7b\"apiVersion\":" ++ jsonString e.apiVersion ++ ",\"revision\":").utf8ByteSize +
    (toString e.revision.toNat).utf8ByteSize +
  (",\"hash\":" ++ jsonString e.hash).utf8ByteSize +
  (if e.signature = [] then 0 else ",\"signature\":\"\"".utf8ByteSize +
    (e.signature.length + 2) / 3 * 4) +
  ",\"plan\":\x7d".utf8ByteSize + size e.plan

/-- `MarshalDocument`; its text ends with a newline. -/
def marshalDocument (candidate : Candidate) : Except CandidateError Envelope :=
  if candidate.revision = 0 ∨ candidate.hash = "" then .error .errInvalidCandidate
  else match marshal size candidate.plan with
    | .error _ => .error .errInvalidCandidate
    | .ok plan =>
      let payload : Envelope :=
        ⟨apiVersion, candidate.revision, candidate.hash, candidate.signature, plan⟩
      if maxDocumentBytes < payload.bytes size then .error .errInvalidCandidate else .ok payload

/-- `ParseDocument` of the text with its newline. -/
def parseDocument (input : Envelope) : Except CandidateError Candidate :=
  if maxDocumentBytes < input.bytes size + 1 then .error .errInvalidCandidate
  else if input.apiVersion ≠ apiVersion ∨ input.revision = 0 ∨ input.hash = "" then
    .error .errInvalidCandidate
  else if input.signature.length ≠ 0 ∧ input.signature.length ≠ signatureSize then
    .error .errInvalidCandidate
  else match parse size input.plan with
    | .error _ => .error .errInvalidCandidate
    | .ok plan => newCandidate ⟨input.revision, plan, input.hash, input.signature⟩

theorem isPlain_of_isDigit {c : Char} (h : c.isDigit = true) : isPlain c = true := by
  simp only [Char.isDigit, Bool.and_eq_true, decide_eq_true_eq] at h
  have hlow : 48 ≤ c.toNat := h.1
  have hhigh : c.toNat ≤ 57 := h.2
  simp only [isPlain, Bool.and_eq_true, decide_eq_true_eq]
  omega

theorem utf8ByteSize_toString (n : Nat) (e : Nat) (he : 0 < e) (h : n < 10 ^ e) :
    (toString n).utf8ByteSize ≤ e := by
  have hplain : Plain (Nat.toDigits 10 n) := fun c hc =>
    isPlain_of_isDigit (Nat.isDigit_of_mem_toDigits (by decide) (by decide) hc)
  rw [Nat.toString_eq_ofList_toDigits, utf8ByteSize_of_plain hplain]
  exact Nat.toDigits_length 10 n e he h

/-- The envelope adds little to the plan. -/
theorem bytes_le (candidate : Candidate) (plan : PlanDocument) (hrevision : candidate.revision ≠ 0)
    (hsignature : candidate.signature.length ≤ signatureSize)
    (hplan : size plan + 1 ≤ maximumDocumentBytes) :
    (Envelope.mk apiVersion candidate.revision candidate.hash candidate.signature plan).bytes size +
      1 ≤ maxDocumentBytes := by
  have hhead : ("\x7b\"apiVersion\":" ++ jsonString apiVersion ++ ",\"revision\":").utf8ByteSize ≤
    100 := by decide +kernel
  have hdigits := utf8ByteSize_toString candidate.revision.toNat 20 (by decide)
    (by have := candidate.revision.toNat_lt; omega)
  have hhash : (",\"hash\":" ++ jsonString candidate.hash).utf8ByteSize ≤ 1000 := by
    obtain ⟨hsnapshot, -⟩ := activate_ok (candidate.built hrevision)
    have hjson := utf8ByteSize_jsonString candidate.hash
    have hbytes : candidate.hash.utf8ByteSize = 71 := by
      rw [Candidate.hash, hsnapshot]
      have hname : "sha256:".utf8ByteSize = 7 := by decide +kernel
      simp [canonicalHash, utf8ByteSize_hexEncode, hname]
    have hfield : ",\"hash\":".utf8ByteSize = 8 := by decide +kernel
    rw [String.utf8ByteSize_append]
    omega
  have hfield : ",\"signature\":\"\"".utf8ByteSize ≤ 20 := by decide +kernel
  have hlast : ",\"plan\":\x7d".utf8ByteSize ≤ 20 := by decide +kernel
  have hsigned : (if candidate.signature = [] then 0
      else ",\"signature\":\"\"".utf8ByteSize + (candidate.signature.length + 2) / 3 * 4) ≤
        200 := by
    rw [signatureSize] at hsignature
    split <;> omega
  unfold Envelope.bytes
  dsimp only
  unfold maximumDocumentBytes at hplan
  unfold maxDocumentBytes
  omega

/-- **Round trip**: a candidate whose document is written is read back exactly if its signature is
absent or has full length. -/
theorem parseDocument_iff {spec : CandidateSpec} {candidate : Candidate}
    (hnew : newCandidate spec = .ok candidate)
    {payload : Envelope} (hmarshal : marshalDocument size candidate = .ok payload) :
    (∃ read, parseDocument size payload = .ok read ∧ read.revision = candidate.revision ∧
      read.epoch = candidate.epoch ∧
      read.hash = candidate.hash ∧ read.signature = candidate.signature ∧
        read.signingBytes = candidate.signingBytes) ↔
    candidate.signature = [] ∨ candidate.signature.length = signatureSize := by
  obtain ⟨-, hlength, -, hsignature, -, -⟩ := newCandidate_eq_ok hnew
  rw [← hsignature] at hlength
  unfold marshalDocument at hmarshal
  rw [guard_eq_ok, not_or] at hmarshal
  obtain ⟨⟨hrevision, hhash⟩, hmarshal⟩ := hmarshal
  split at hmarshal
  · cases hmarshal
  next plan hplan =>
    rw [guard_eq_ok] at hmarshal
    obtain rfl := Except.ok.inj hmarshal.2
    obtain ⟨hbytes, plan', first, second, hparse, hfirst, hsecond, hcanonical⟩ :=
      parse_marshal size hplan
    have hsame := hcanonical.same
    constructor
    · rintro ⟨read, hread, -⟩
      unfold parseDocument at hread
      rw [guard_eq_ok, guard_eq_ok, guard_eq_ok] at hread
      by_contra hnot
      rw [not_or, ← List.length_eq_zero_iff] at hnot
      exact hread.2.2.1 hnot
    · intro hfull
      -- the plan that is read has the same hash
      have hfound : first = candidate.snapshot :=
        Except.ok.inj (hfirst.symm.trans (candidate.built hrevision))
      obtain ⟨hsnapshot, -⟩ := activate_ok hfirst
      obtain ⟨hsecondSnapshot, -⟩ := activate_ok hsecond
      have hhashes : candidate.hash = second.hash := by
        rw [Candidate.hash, ← hfound, hsnapshot, hsecondSnapshot]
        exact congrArg (fun message => "sha256:" ++ hexEncode (sha256 message))
          ((message_eq_iff hfirst hsecond).mpr hsame)
      have hepochs : second.epoch = candidate.epoch := by
        rw [Candidate.epoch, ← hfound, hsnapshot, hsecondSnapshot]
        exact hsame.epoch.symm
      obtain ⟨read, hread, hreadRevision, hreadSignature, hreadSnapshot⟩ := newCandidate_ok
        ⟨candidate.revision, plan', candidate.hash, candidate.signature⟩ hrevision hlength hsecond
          (.inr hhashes)
      have hreadEpoch : read.epoch = candidate.epoch :=
        (congrArg Snapshot.epoch hreadSnapshot).trans hepochs
      have hreadHash : read.hash = candidate.hash :=
        (congrArg Snapshot.hash hreadSnapshot).trans hhashes.symm
      refine ⟨read, ?_, hreadRevision, hreadEpoch, hreadHash, hreadSignature,
        Candidate.signingBytes_congr hreadRevision hreadEpoch hreadHash⟩
      have hvalid : ¬ (apiVersion ≠ apiVersion ∨ candidate.revision = 0 ∨ candidate.hash = "") := by
        simp [hrevision, hhash]
      have hsigned : ¬ (candidate.signature.length ≠ 0 ∧
        candidate.signature.length ≠ signatureSize) := fun h =>
        hfull.elim (fun hnil => h.1 (List.length_eq_zero_iff.mpr hnil)) h.2
      unfold parseDocument
      rw [if_neg (Nat.not_lt.mpr (bytes_le size candidate plan hrevision hlength hbytes)),
        if_neg hvalid, if_neg hsigned, hparse]
      exact hread

namespace Signed

/-- One placement with one component. -/
def plan : Plan := ⟨1, {"p"}, Finmap.singleton "c" "p", ∅, none⟩

/-- The size of the JSON text of its document, 135. -/
def textSize (_ : PlanDocument) : Nat :=
  "\x7b\"apiVersion\":\"keelith.dev/topology/v1alpha1\",\"epoch\":1,\"placements\":[\"p\"],".length +
    "\"components\":[\x7b\"id\":\"c\",\"placement\":\"p\"\x7d],\"dependencies\":[]\x7d".length

theorem plan_activates : activate plan =
    .ok { clonePlan plan with hash := canonicalHash (clonePlan plan) } :=
  activate_of_valid (by decide +kernel)

theorem plan_marshals : ∃ document, marshal textSize plan = .ok document := by
  unfold marshal
  rw [if_neg (by decide +kernel), plan_activates]
  exact ⟨_, by rw [if_neg (by decide +kernel), if_neg (by decide)]⟩

theorem marshal_canonical_plan : ∃ document plan', marshal textSize plan = .ok document ∧
    parse textSize document = .ok plan' ∧ marshal textSize plan' = .ok document := by
  obtain ⟨document, hdocument⟩ := plan_marshals
  obtain ⟨⟨plan', hparse, -, hagain⟩, -⟩ := marshal_canonical textSize hdocument
  exact ⟨document, plan', hdocument, hparse, hagain⟩

/-- The document of a candidate with this plan is written. -/
theorem written (signature : List UInt8) (h : signature.length ≤ signatureSize) :
    ∃ candidate payload,
    newCandidate ⟨1, plan, "", signature⟩ = .ok candidate ∧
      marshalDocument textSize candidate = .ok payload ∧
      payload.signature = signature ∧ candidate.signature = signature := by
  have hone : (1 : UInt64) ≠ 0 := by decide
  obtain ⟨candidate, hnew, -⟩ :=
    newCandidate_ok ⟨1, plan, "", signature⟩ hone h plan_activates (.inl rfl)
  obtain ⟨-, -, hrevision, hsignature, hplan, -⟩ := newCandidate_eq_ok hnew
  obtain ⟨document, hdocument⟩ := plan_marshals
  have hne : candidate.revision ≠ 0 := fun h => hone (hrevision.symm.trans h)
  refine ⟨candidate, ⟨apiVersion, candidate.revision, candidate.hash, candidate.signature,
    document⟩, hnew, ?_, hsignature, hsignature⟩
  have hbytes := bytes_le textSize candidate document hne (by rw [hsignature]; exact h)
    (parse_marshal textSize hdocument).1
  unfold marshalDocument
  rw [if_neg (not_or.mpr ⟨hne, candidate.hash_ne hne⟩), hplan, hdocument]
  dsimp only
  rw [if_neg (by omega)]

/-- A signature of one byte is accepted and written, and no reader accepts the document. -/
theorem short_signature_lost : ∃ candidate payload,
    newCandidate ⟨1, plan, "", [7]⟩ = .ok candidate ∧
    marshalDocument textSize candidate = .ok payload ∧
      ∀ read, parseDocument textSize payload ≠ .ok read := by
  obtain ⟨candidate, payload, hnew, hmarshal, hsignature, -⟩ := written [7] (by decide)
  refine ⟨candidate, payload, hnew, hmarshal, fun read hread => ?_⟩
  unfold parseDocument at hread
  rw [guard_eq_ok, guard_eq_ok, guard_eq_ok, hsignature] at hread
  exact hread.2.2.1 (by decide)

theorem parseDocument_iff_unsigned : ∃ candidate payload,
    newCandidate ⟨1, plan, "", []⟩ = .ok candidate ∧
    marshalDocument textSize candidate = .ok payload ∧
      ∃ read, parseDocument textSize payload = .ok read ∧ read.hash = candidate.hash := by
  obtain ⟨candidate, payload, hnew, hmarshal, -, hsignature⟩ := written [] (by decide)
  obtain ⟨read, hread, -, -, hhash, -⟩ :=
    (parseDocument_iff textSize hnew hmarshal).mpr (.inl hsignature)
  exact ⟨candidate, payload, hnew, hmarshal, read, hread, hhash⟩

end Signed

end Control

end Keelith.Topology
