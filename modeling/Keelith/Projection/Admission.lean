import Keelith.Projection.Quota

/-!
# Tenants of principals

`transport/grpc/projection/server.go` finds the tenant of a request by a claim of the principal
(`security/principal.go`), or else by its issuer and subject, with a NUL between them. `NewTenant`
refuses control characters, so a principal without the claim is never admitted.
-/

namespace Keelith.Projection

/-- `valid` of the texts of a principal. -/
def validText (value : String) (required : Bool) : Bool :=
  if value = "" then !required else trimSpace value == value && value.toList.all fun r =>
    !isControl r

/-- What is read of a `Principal` that `NewPrincipal` has accepted. -/
structure Principal where
  subject : String
  issuer : String
  claims : Map String String
  subject_valid : validText subject true = true
  issuer_valid : validText issuer false = true
  claims_valid : claims.all (fun key value => validText key true && validText value false) = true

/-- `claims[key]`: empty if there is none. -/
def Principal.claim (principal : Principal) (key : String) : String :=
  (principal.claims.lookup key).getD ""

/-- The conversion of a text to a `TenantClass`. -/
def TenantClass.ofText : String → TenantClass
  | "standard" => .standard
  | "bulk" => .bulk
  | "system" => .system
  | name => .other name

def admittedTenant (principal : Principal) (authenticated : Bool) : Except QuotaError Tenant :=
  if !authenticated then newTenant "public" .standard
  else
    let identity := principal.claim "keelith.tenant"
    let identity := if identity = "" then principal.issuer ++ "\x00" ++
      principal.subject else identity
    let «class» := principal.claim "keelith.tenant_class"
    newTenant identity (if «class» = "" then .standard else .ofText «class»)

variable {p : Principal} {tenant : Tenant}

theorem admittedTenant_eq_ok (h : admittedTenant p true = .ok tenant) :
    p.claim "keelith.tenant" ≠ "" ∧ tenant.key = sha256 (bytesOf (p.claim "keelith.tenant")) := by
  have hnul : validIdentity (p.issuer ++ "\x00" ++ p.subject) maxTenantIdentityBytes = false := by
    simp [validIdentity, isControl]
  obtain ⟨hvalid, h⟩ := guard_eq_ok.mp h
  obtain rfl := Except.ok.inj h
  by_cases hclaim : p.claim "keelith.tenant" = ""
  · simp [hclaim, hnul] at hvalid
  · exact ⟨hclaim, by rw [if_neg hclaim]⟩

/-- A principal without a tenant claim is admitted, and shares its tenant only with principals of
its issuer and subject; one with a claim shares it only with principals of the same claim. The
claims are in `S`. -/
def OwnTenant (S : Set (List UInt8)) (p : Principal) : Prop :=
  (p.claim "keelith.tenant" = "" → ∃ tenant, admittedTenant p true = .ok tenant) ∧
    ∀ (q : Principal) tenant tenant', bytesOf (q.claim "keelith.tenant") ∈ S →
      admittedTenant p true = .ok tenant →
      admittedTenant q true = .ok tenant' → tenant.key = tenant'.key →
        q.claim "keelith.tenant" = p.claim "keelith.tenant" ∧
          (p.claim "keelith.tenant" = "" → q.issuer = p.issuer ∧ q.subject = p.subject)

/-- **A principal has its own tenant** exactly if it has a tenant claim. -/
theorem ownTenant_iff {S : Set (List UInt8)} (hS : CollisionFree S) {p : Principal}
    (hp : bytesOf (p.claim "keelith.tenant") ∈ S) :
    OwnTenant S p ↔ p.claim "keelith.tenant" ≠ "" := by
  constructor
  · intro h hnone
    obtain ⟨tenant, hadmitted⟩ := h.1 hnone
    exact (admittedTenant_eq_ok hadmitted).1 hnone
  · refine fun hclaim => ⟨fun hnone => absurd hnone hclaim, fun q tenant tenant' hq h h' hkey => ?_⟩
    rw [(admittedTenant_eq_ok h).2, (admittedTenant_eq_ok h').2] at hkey
    exact ⟨bytesOf_inj (hS hq hp hkey.symm), fun hnone => absurd hnone hclaim⟩

theorem no_tenant : ∃ p : Principal, ¬ OwnTenant ∅ p := by
  refine ⟨⟨"alice", "", ∅, by decide +kernel, rfl, rfl⟩, fun h => ?_⟩
  obtain ⟨tenant, hadmitted⟩ := h.1 rfl
  exact (admittedTenant_eq_ok hadmitted).1 rfl

theorem tenant_acme : ∃ p : Principal, p.claim "keelith.tenant" = "acme" ∧
    OwnTenant {bytesOf "acme"} p :=
  ⟨⟨"alice", "", Finmap.singleton "keelith.tenant" "acme", by decide +kernel, rfl, by
    decide +kernel⟩, rfl, (ownTenant_iff (Set.injOn_singleton _ _) rfl).mpr (by decide)⟩

end Keelith.Projection
