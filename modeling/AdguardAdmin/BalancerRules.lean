import AdguardAdmin.BalancerEdits
import AdguardAdmin.PoolReachability
import AdguardAdmin.RunLaws
/-!
# What balancers must obey

All balancers of a zone share one mode, a direct-routing balancer has a VIP on its
zone, and no host runs two balancers.  The requests that write a balancer row check
this, and so does the request for a token; `update_zone` and `enroll` do not.

* `rules_append_iff`, `rules_put` — what adding and what editing a row needs;
* `serve_rules_iff` — the exact condition on one request;
* `rules_iff` — the exact runs in which the rules hold throughout: those in which no
  zone loses its VIP under a direct-routing balancer and no enrollment brings a
  balancer its zone has no place for any more.
-/

namespace AdguardAdmin

open GoText RunLaws TableIds
open Registry (HttpError)

/-! ## The rules -/

def HasVip (zones : List Zone) (zoneId : Option Nat) : Prop :=
  ∃ zone ∈ zones, zoneId = some zone.id ∧ zone.vip.getD "" ≠ ""

structure BalancerRules (zones : List Zone) (lbs : List LoadBalancer) : Prop where
  oneMode : ∀ lb ∈ lbs, ∀ other ∈ lbs, ∀ zid, lb.zoneId = some zid → other.zoneId = some zid →
    lb.mode = other.mode
  vip : ∀ lb ∈ lbs, lb.mode = .ipvs → HasVip zones lb.zoneId
  oneHost : ∀ lb ∈ lbs, ∀ other ∈ lbs, lb.agentId = other.agentId → lb.id = other.id

/-- A balancer has a place among others. -/
structure Fits (zones : List Zone) (others : List LoadBalancer) (lb : LoadBalancer) : Prop where
  mode : ∀ other ∈ others, ∀ zid, lb.zoneId = some zid → other.zoneId = some zid →
    other.mode = lb.mode
  vip : lb.mode = .ipvs → HasVip zones lb.zoneId
  host : ∀ other ∈ others, other.agentId ≠ lb.agentId

theorem mem_append_singleton {α : Type} {a b : α} {l : List α} : a ∈ l ++ [b] ↔ a ∈ l ∨ a = b := by
  rw [List.mem_append, List.mem_singleton]

/-- **Adding a row** keeps the rules exactly when the row has a place. -/
theorem rules_append_iff {zones : List Zone} {lbs : List LoadBalancer} (lb : LoadBalancer)
    (h : BalancerRules zones lbs) (hid : ∀ other ∈ lbs, other.id ≠ lb.id) :
    BalancerRules zones (lbs ++ [lb]) ↔ Fits zones lbs lb := by
  have hlast : lb ∈ lbs ++ [lb] := List.mem_append_right _ (List.mem_singleton_self lb)
  have hold : ∀ other ∈ lbs, other ∈ lbs ++ [lb] := fun other => List.mem_append_left _
  constructor
  · intro hall
    refine ⟨fun other ho zid hz hoz => ?_, hall.vip lb hlast, fun other ho heq => ?_⟩
    · exact hall.oneMode other (hold other ho) lb hlast zid hoz hz
    · exact hid other ho (hall.oneHost other (hold other ho) lb hlast heq)
  · intro hfits
    refine ⟨fun a ha b hb zid haz hbz => ?_, fun a ha hmode => ?_, fun a ha b hb heq => ?_⟩
    · rcases mem_append_singleton.mp ha with ha' | rfl <;>
        rcases mem_append_singleton.mp hb with hb' | rfl
      · exact h.oneMode a ha' b hb' zid haz hbz
      · exact hfits.mode a ha' zid hbz haz
      · exact (hfits.mode b hb' zid haz hbz).symm
      · rfl
    · rcases mem_append_singleton.mp ha with ha' | rfl
      · exact h.vip a ha' hmode
      · exact hfits.vip hmode
    · rcases mem_append_singleton.mp ha with ha' | rfl <;>
        rcases mem_append_singleton.mp hb with hb' | rfl
      · exact h.oneHost a ha' b hb' heq
      · exact absurd heq (hfits.host a ha')
      · exact absurd heq.symm (hfits.host b hb')
      · rfl

/-- **Editing a row** keeps the rules when the new row has a place among the others. -/
theorem rules_put {zones : List Zone} {lbs : List LoadBalancer} {new : LoadBalancer}
    (h : BalancerRules zones lbs) (hid : new.id ∈ lbs.map (·.id))
    (hfits : Fits zones (lbs.filter (·.id ≠ new.id)) new) :
    BalancerRules zones (putRow (·.id) new lbs) := by
  have hother : ∀ row ∈ lbs, row.id ≠ new.id → row ∈ lbs.filter (·.id ≠ new.id) := by
    intro row hrow hne
    simp [hrow, hne]
  refine ⟨fun a ha b hb zid haz hbz => ?_, fun a ha hmode => ?_, fun a ha b hb heq => ?_⟩
  · rcases (mem_putRow hid).mp ha with rfl | ⟨ha', hane⟩ <;>
      rcases (mem_putRow hid).mp hb with rfl | ⟨hb', hbne⟩
    · rfl
    · exact (hfits.mode b (hother b hb' hbne) zid haz hbz).symm
    · exact hfits.mode a (hother a ha' hane) zid hbz haz
    · exact h.oneMode a ha' b hb' zid haz hbz
  · rcases (mem_putRow hid).mp ha with rfl | ⟨ha', -⟩
    · exact hfits.vip hmode
    · exact h.vip a ha' hmode
  · rcases (mem_putRow hid).mp ha with rfl | ⟨ha', hane⟩ <;>
      rcases (mem_putRow hid).mp hb with rfl | ⟨hb', hbne⟩
    · rfl
    · exact absurd heq.symm (hfits.host b (hother b hb' hbne))
    · exact absurd heq (hfits.host a (hother a ha' hane))
    · exact h.oneHost a ha' b hb' heq

/-- Fewer balancers keep the rules. -/
theorem rules_of_subset {zones : List Zone} {lbs fewer : List LoadBalancer}
    (h : BalancerRules zones lbs) (hsub : ∀ lb ∈ fewer, lb ∈ lbs) : BalancerRules zones fewer where
  oneMode lb hlb other hother := h.oneMode lb (hsub lb hlb) other (hsub other hother)
  vip lb hlb := h.vip lb (hsub lb hlb)
  oneHost lb hlb other hother := h.oneHost lb (hsub lb hlb) other (hsub other hother)

/-- A row that is edited elsewhere keeps its place. -/
theorem fits_of_same {zones : List Zone} {lbs : List LoadBalancer} {lb : LoadBalancer}
    (new : LoadBalancer) (h : BalancerRules zones lbs) (hlb : lb ∈ lbs) (hid : new.id = lb.id)
    (hzone : new.zoneId = lb.zoneId) (hhost : new.agentId = lb.agentId) (hmode : new.mode = lb.mode) :
    Fits zones (lbs.filter (·.id ≠ new.id)) new := by
  refine ⟨fun other ho zid hz hoz => ?_, fun hipvs => ?_, fun other ho heq => ?_⟩
  · rw [hmode]
    exact h.oneMode other (List.mem_filter.mp ho).1 lb hlb zid hoz (hzone ▸ hz)
  · rw [hzone]
    exact h.vip lb hlb (hmode ▸ hipvs)
  · obtain ⟨ho, hne⟩ := List.mem_filter.mp ho
    have hsame : other.id = lb.id := h.oneHost other ho lb hlb (heq.trans hhost)
    simp [hsame, hid] at hne

/-! ## What the checks establish -/

/-- The check of a mode: IPVS needs a VIP, and the others of the zone have the same mode. -/
theorem validateZoneMode_ok {db : Database} {zone : Zone} {mode : LbMode} {exclude : Option Nat}
    {u : Unit} (h : validateZoneMode db zone mode exclude = .ok u) :
    (mode = .ipvs → zone.vip.getD "" ≠ "") ∧
      ∀ other ∈ db.loadBalancers, other.zoneId = some zone.id → exclude ≠ some other.id →
        other.mode = mode := by
  unfold validateZoneMode at h
  split at h
  · cases h
  · rename_i hvip
    refine ⟨fun hmode hempty => hvip ⟨hmode, hempty⟩, fun other hother hzone hexclude => ?_⟩
    split at h
    · cases h
    · rename_i hnone
      by_contra hne
      have hfound := List.find?_eq_none.mp hnone other hother
      simp [hzone, hne, hexclude] at hfound

/-- A row that passes `validateRefs` has a place among all rows but its own. -/
theorem validateRefs_ok {db : Database} {zoneId agentId : Option Nat} {mode : LbMode}
    {exclude : Option Nat} {u : Unit} (h : validateRefs db zoneId agentId mode exclude = .ok u)
    (lb : LoadBalancer) (hzone : lb.zoneId = zoneId) (hhost : ∀ id, agentId = some id → lb.agentId = id)
    (hmode : lb.mode = mode) :
    Fits db.zones (db.loadBalancers.filter fun other => exclude ≠ some other.id) lb := by
  unfold validateRefs at h
  cases zoneId with
  | none => cases h
  | some zid =>
      dsimp only at h
      split at h
      · cases h
      · rename_i zone hget
        obtain ⟨hmem, rfl⟩ := getZone_some hget
        split at h
        · cases h
        · rename_i agent hagent
          obtain ⟨id, hid, hfound⟩ := Option.bind_eq_some_iff.mp hagent
          have hagentId : agent.id = lb.agentId := (getAgent_some hfound).2.trans (hhost id hid).symm
          split at h
          · cases h
          · rename_i hfree
            obtain ⟨hvip, hmodes⟩ := validateZoneMode_ok h
            refine ⟨fun other ho zid hz hoz => ?_, fun hipvs => ?_, fun other ho heq => ?_⟩
            · obtain ⟨ho, hexclude⟩ := List.mem_filter.mp ho
              rw [hmode]
              have hsame : zone.id = zid := by rw [hzone] at hz; exact Option.some.inj hz
              exact hmodes other ho (hsame ▸ hoz) (by simpa using hexclude)
            · exact ⟨zone, hmem, hzone, hvip (hmode ▸ hipvs)⟩
            · obtain ⟨ho, hexclude⟩ := List.mem_filter.mp ho
              refine hfree (List.any_eq_true.mpr ⟨other, ho, ?_⟩)
              simpa [heq, hagentId] using hexclude

/-! ## Zones -/

/-- Writing a zone changes only whether that zone has a VIP. -/
theorem hasVip_putRow {zones : List Zone} {new : Zone} (hid : new.id ∈ zones.map (·.id))
    {zoneId : Option Nat} (h : HasVip zones zoneId) :
    HasVip (putRow (·.id) new zones) zoneId ↔ (zoneId = some new.id → new.vip.getD "" ≠ "") := by
  constructor
  · rintro ⟨zone, hzone, hzid, hvip⟩ hnew
    rcases (mem_putRow hid).mp hzone with rfl | ⟨-, hne⟩
    · exact hvip
    · exact absurd (Option.some.inj (hzid.symm.trans hnew)) hne
  · intro hnew
    obtain ⟨zone, hzone, hzid, hvip⟩ := h
    by_cases heq : zone.id = new.id
    · have htarget : zoneId = some new.id := heq ▸ hzid
      exact ⟨new, (mem_putRow hid).mpr (.inl rfl), htarget, hnew htarget⟩
    · exact ⟨zone, (mem_putRow hid).mpr (.inr ⟨hzone, heq⟩), hzid, hvip⟩

/-- **Writing a zone** keeps the rules exactly when it does not take the VIP from a
direct-routing balancer. -/
theorem rules_putZone_iff {zones : List Zone} {lbs : List LoadBalancer} (new : Zone)
    (h : BalancerRules zones lbs) (hid : new.id ∈ zones.map (·.id)) :
    BalancerRules (putRow (·.id) new zones) lbs ↔
      (new.vip.getD "" = "" → ∀ lb ∈ lbs, lb.zoneId = some new.id → lb.mode ≠ .ipvs) := by
  have hvip_iff : ∀ lb ∈ lbs, lb.mode = .ipvs →
      (HasVip (putRow (·.id) new zones) lb.zoneId ↔ (lb.zoneId = some new.id → new.vip.getD "" ≠ "")) :=
    fun lb hlb hmode => hasVip_putRow hid (h.vip lb hlb hmode)
  constructor
  · intro hnew hempty lb hlb hzone hmode
    exact (hvip_iff lb hlb hmode).mp (hnew.vip lb hlb hmode) hzone hempty
  · intro hkeeps
    refine ⟨h.oneMode, fun lb hlb hmode => ?_, h.oneHost⟩
    apply (hvip_iff lb hlb hmode).mpr
    intro hzone hempty
    exact hkeeps hempty lb hlb hzone hmode

/-- The rules see of the zones only which have a VIP. -/
theorem rules_congr {zones zones' : List Zone} {lbs : List LoadBalancer}
    (h : ∀ zoneId, HasVip zones' zoneId ↔ HasVip zones zoneId) :
    BalancerRules zones' lbs ↔ BalancerRules zones lbs := by
  constructor
  · intro hrules
    exact ⟨hrules.oneMode, fun lb hlb hmode => (h _).mp (hrules.vip lb hlb hmode), hrules.oneHost⟩
  · intro hrules
    exact ⟨hrules.oneMode, fun lb hlb hmode => (h _).mpr (hrules.vip lb hlb hmode), hrules.oneHost⟩

/-- A zone with a VIP that is edited elsewhere changes no VIP. -/
theorem hasVip_putSame {zones : List Zone} {zone new : Zone} (hzone : zone ∈ zones)
    (hid : new.id = zone.id) (hsame : new.vip = zone.vip) (hvip : zone.vip.getD "" ≠ "")
    (zoneId : Option Nat) : HasVip (putRow (·.id) new zones) zoneId ↔ HasVip zones zoneId := by
  have hkey : new.id ∈ zones.map (·.id) := hid ▸ List.mem_map_of_mem hzone
  constructor
  · rintro ⟨row, hrow, hrowId, hrowVip⟩
    rcases (mem_putRow hkey).mp hrow with rfl | ⟨hold, -⟩
    · exact ⟨zone, hzone, hid ▸ hrowId, hvip⟩
    · exact ⟨row, hold, hrowId, hrowVip⟩
  · intro h
    apply (hasVip_putRow hkey h).mpr
    intro _
    exact hsame ▸ hvip

/-- Filling in what VRRP needs changes no VIP. -/
theorem ensureVrrp_rules_iff {env : Environment} {s : ControlPlane} {zone : Zone}
    (hzone : zone ∈ s.db.zones) :
    BalancerRules (s.ensureVrrp env zone).1.db.zones (s.ensureVrrp env zone).1.db.loadBalancers ↔
      BalancerRules s.db.zones s.db.loadBalancers := by
  unfold ControlPlane.ensureVrrp
  split
  · exact Iff.rfl
  · rename_i hvip
    split
    · exact Iff.rfl
    · rename_i filled hensure
      obtain ⟨auth, -, rfl⟩ := Option.map_eq_some_iff.mp hensure
      exact rules_congr (hasVip_putSame hzone rfl rfl hvip)

/-! ## Requests -/

inductive Request where
  | createZone (vip : Option String) (routerId : Option Int) (others : Except HttpError Unit)
  | updateZone (id : Nat) (vip : Option (Option String)) (routerId : Option (Option Int))
      (others : Except HttpError Unit)
  | createLoadBalancer (payload : LoadBalancerCreate)
  | updateLoadBalancer (id : Nat) (data : LoadBalancerUpdate)
  | deleteLoadBalancer (id : Nat)
  | createToken (payload : ProvisionRequest) (text password : String) (now : Int)
  | revokeToken (id : Nat)
  | deleteToken (id : Nat)
  | enroll (token : String) (payload : EnrollRequest) (now : Int)

namespace ControlPlane

/-- The rows a request leaves: its own, or the old ones when it fails. -/
def afterwards (s : ControlPlane) : Except HttpError ControlPlane → ControlPlane
  | .ok s' => s'
  | .error _ => s

variable (p : Provisioner)

def serve (s : ControlPlane) : Request → ControlPlane
  | .createZone vip routerId others => (s.createZone p.toEnvironment vip routerId others).1
  | .updateZone id vip routerId others => (s.updateZone p.toEnvironment id vip routerId others).1
  | .createLoadBalancer payload => s.afterwards (s.createLoadBalancer payload)
  | .updateLoadBalancer id data => s.afterwards (s.updateLoadBalancer id data)
  | .deleteLoadBalancer id => s.afterwards (s.deleteLoadBalancer id)
  | .createToken payload text password now => s.afterwards (s.createToken p payload text password now)
  | .revokeToken id => s.afterwards (s.revokeToken id)
  | .deleteToken id => s.afterwards (s.deleteToken id)
  | .enroll token payload now => (AdguardAdmin.enroll p s token payload now).1

/-- Every balancer obeys the rules. -/
def Orderly (s : ControlPlane) : Prop := BalancerRules s.db.zones s.db.loadBalancers

/-- The zone a token was made for still has a place for a balancer of its mode. -/
def HasPlace (s : ControlPlane) (t : ProvisioningToken) : Prop :=
  (∀ other ∈ s.db.loadBalancers, ∀ zid, t.zoneId = some zid → other.zoneId = some zid →
    other.mode = t.lbMode) ∧
  (t.lbMode = .ipvs → HasVip s.db.zones t.zoneId)

/-- What the two requests that do not check find.  An update that clears a VIP finds
no direct-routing balancer in the zone; an enrollment that brings a balancer finds
the zone with a place for it. -/
def Checked (s : ControlPlane) : Request → Prop
  | .updateZone id vip _ others => others = .ok () → ∀ cleared, vip = some cleared →
      cleared.getD "" = "" → ∀ lb ∈ s.db.loadBalancers, lb.zoneId = some id → lb.mode ≠ .ipvs
  | .enroll token payload now => ∀ admission, checkRequest p s token payload now = .ok admission →
      .dnsdist ∈ admission.ticket.asked → s.HasPlace admission.ticket
  | _ => True

/-! ## One request -/

variable {s : ControlPlane}

/-- A refused request keeps the rules. -/
theorem orderly_afterwards (h : s.Orderly) {result : Except HttpError ControlPlane}
    (hok : ∀ s', result = .ok s' → s'.Orderly) : (s.afterwards result).Orderly := by
  cases result with
  | error e => exact h
  | ok s' => exact hok s' rfl

/-- A new zone keeps the rules. -/
theorem createZone_orderly (h : s.Orderly) (env : Environment) (vip : Option String)
    (routerId : Option Int) (others : Except HttpError Unit) :
    (s.createZone env vip routerId others).1.Orderly := by
  unfold createZone
  split
  · exact h
  · apply (ensureVrrp_rules_iff (List.mem_append_right _ (List.mem_singleton_self _))).mpr
    refine ⟨h.oneMode, fun lb hlb hmode => ?_, h.oneHost⟩
    obtain ⟨zone, hzone, hid, hvip⟩ := h.vip lb hlb hmode
    exact ⟨zone, List.mem_append_left _ hzone, hid, hvip⟩

/-- A zone without a VIP has no direct-routing balancer. -/
theorem mode_ne_ipvs (h : s.Orderly) {zone : Zone} (hzone : zone ∈ s.db.zones)
    (hvip : zone.vip.getD "" = "") {lb : LoadBalancer} (hlb : lb ∈ s.db.loadBalancers)
    (hid : lb.zoneId = some zone.id) : lb.mode ≠ .ipvs := by
  intro hmode
  obtain ⟨other, hother, hotherId, hotherVip⟩ := h.vip lb hlb hmode
  have hsame : other = zone := by
    apply List.inj_on_of_nodup_map s.db.zoneKeys hother hzone
    exact Option.some.inj (hotherId.symm.trans hid)
  exact hotherVip (hsame ▸ hvip)

/-- A changed zone keeps the rules exactly when it was checked. -/
theorem updateZone_orderly_iff (h : s.Orderly) (env : Environment) (id : Nat)
    (vip : Option (Option String)) (routerId : Option (Option Int)) (others : Except HttpError Unit) :
    (s.updateZone env id vip routerId others).1.Orderly ↔
      s.Checked p (.updateZone id vip routerId others) := by
  unfold updateZone
  cases hget : s.db.getZone id with
  | none =>
      refine iff_of_true h fun _ _ _ _ lb hlb hzone hmode => ?_
      obtain ⟨zone, hmem, hid, -⟩ := h.vip lb hlb hmode
      have hnone := List.find?_eq_none.mp hget zone hmem
      simp [Option.some.inj (hid.symm.trans hzone)] at hnone
  | some zone =>
      obtain ⟨hzone, rfl⟩ := getZone_some hget
      have hkey : zone.id ∈ s.db.zones.map (·.id) := List.mem_map_of_mem hzone
      cases others with
      | error e => exact iff_of_true h fun hok => absurd hok (by simp)
      | ok u =>
          have hput := rules_putZone_iff (updatedZone zone vip routerId) h hkey
          have hstored : updatedZone zone vip routerId ∈
              putRow (·.id) (updatedZone zone vip routerId) s.db.zones :=
            (mem_putRow (show (updatedZone zone vip routerId).id ∈ _ from hkey)).mpr (.inl rfl)
          refine (ensureVrrp_rules_iff hstored).trans (hput.trans ?_)
          cases vip with
          | none =>
              refine iff_of_true (fun hempty lb hlb hid => ?_) fun _ _ hnone => by cases hnone
              exact mode_ne_ipvs h hzone hempty hlb hid
          | some vip =>
              constructor
              · intro hkeeps _ cleared hcleared
                exact Option.some.inj hcleared ▸ hkeeps
              · intro hchecked
                exact hchecked rfl vip rfl

/-- What a created balancer leaves: one more row, with a place among the others. -/
theorem createLoadBalancer_ok {payload : LoadBalancerCreate} {s' : ControlPlane}
    (h : s.createLoadBalancer payload = .ok s') :
    ∃ lb, s'.db.loadBalancers = s.db.loadBalancers ++ [lb] ∧ s'.db.zones = s.db.zones ∧
      s'.db.agents = s.db.agents ∧ (∀ other ∈ s.db.loadBalancers, other.id ≠ lb.id) ∧
      Fits s.db.zones s.db.loadBalancers lb := by
  unfold createLoadBalancer at h
  obtain ⟨u, hrefs, hadd⟩ := bind_ok.mp h
  unfold addBalancer at hadd
  split at hadd
  · obtain rfl := Except.ok.inj hadd
    have hfits := validateRefs_ok hrefs
      (payload.set (newBalancer (nextId (s.db.loadBalancers.map (·.id))) payload.agentId
        payload.zoneId (payload.mode.getD .dnsdist))) rfl (fun _ => Option.some.inj) rfl
    refine ⟨_, rfl, rfl, rfl, fun other hother heq => ?_, by simpa using hfits⟩
    exact nextId_not_mem _ (List.mem_map.mpr ⟨other, hother, heq⟩)
  · cases hadd

/-- What an update leaves: the row edited, in its old place or with a new one. -/
theorem updateLoadBalancer_ok {id : Nat} {data : LoadBalancerUpdate} {s' : ControlPlane}
    (h : s.updateLoadBalancer id data = .ok s') :
    ∃ lb, s.db.getLoadBalancer id = some lb ∧
      s'.db.loadBalancers = putRow (·.id) (updatedBalancer lb data) s.db.loadBalancers ∧
      s'.db.zones = s.db.zones ∧ s'.db.agents = s.db.agents ∧
      (Fits s.db.zones (s.db.loadBalancers.filter (·.id ≠ lb.id)) (updatedBalancer lb data) ∨
        (updatedBalancer lb data).zoneId = lb.zoneId ∧
          (updatedBalancer lb data).agentId = lb.agentId ∧
          (updatedBalancer lb data).mode = lb.mode) := by
  unfold updateLoadBalancer at h
  split at h
  · cases h
  · rename_i lb hget
    have hplace : (Fits s.db.zones (s.db.loadBalancers.filter (·.id ≠ lb.id))
          (updatedBalancer lb data) ∨
        (updatedBalancer lb data).zoneId = lb.zoneId ∧
          (updatedBalancer lb data).agentId = lb.agentId ∧
          (updatedBalancer lb data).mode = lb.mode) ∧
        s.putBalancer (updatedBalancer lb data) = .ok s' := by
      split at h
      · obtain ⟨u, hrefs, hput⟩ := bind_ok.mp h
        refine ⟨.inl ?_, hput⟩
        have hhost : ∀ host, data.agentId.getD (some lb.agentId) = some host →
            (updatedBalancer lb data).agentId = host := by
          intro host heq
          cases hdata : data.agentId with
          | none => simpa [updatedBalancer, hdata] using heq
          | some given =>
              have hgiven : given = some host := by simpa [hdata] using heq
              simp [updatedBalancer, hdata, hgiven]
        have hall := validateRefs_ok hrefs (updatedBalancer lb data) rfl hhost rfl
        simpa [eq_comm] using hall
      · rename_i hsame
        simp only [not_or, Option.not_isSome_iff_eq_none] at hsame
        obtain ⟨hzone, hhost, hmode⟩ := hsame
        refine ⟨.inr ⟨?_, ?_, ?_⟩, h⟩
        · simp [updatedBalancer, hzone]
        · simp [updatedBalancer, hhost]
        · simp [updatedBalancer, hmode]
    obtain ⟨hplace, hput⟩ := hplace
    unfold putBalancer at hput
    split at hput
    · obtain rfl := Except.ok.inj hput
      exact ⟨lb, hget, rfl, rfl, rfl, hplace⟩
    · cases hput

/-- What a deletion leaves: the other rows. -/
theorem deleteLoadBalancer_ok {id : Nat} {s' : ControlPlane}
    (h : s.deleteLoadBalancer id = .ok s') :
    ∃ lb, s.db.getLoadBalancer id = some lb ∧
      s'.db.loadBalancers = s.db.loadBalancers.filter (·.id ≠ id) ∧
      s'.db.zones = s.db.zones ∧ s'.db.agents = s.db.agents := by
  unfold deleteLoadBalancer at h
  split at h
  · cases h
  · rename_i lb hget
    obtain rfl := Except.ok.inj h
    exact ⟨lb, hget, rfl, rfl, rfl⟩

/-- A new balancer keeps the rules. -/
theorem createLoadBalancer_orderly (h : s.Orderly) (payload : LoadBalancerCreate) :
    (s.afterwards (s.createLoadBalancer payload)).Orderly := by
  apply orderly_afterwards h
  intro s' hok
  obtain ⟨lb, hlbs, hzones, -, hid, hfits⟩ := createLoadBalancer_ok hok
  unfold Orderly
  rw [hlbs, hzones]
  exact (rules_append_iff lb h hid).mpr hfits

/-- A changed balancer leaves orderly rows. -/
theorem updateLoadBalancer_orderly (h : s.Orderly) (id : Nat) (data : LoadBalancerUpdate) :
    (s.afterwards (s.updateLoadBalancer id data)).Orderly := by
  apply orderly_afterwards h
  intro s' hok
  obtain ⟨lb, hget, hlbs, hzones, -, hplace⟩ := updateLoadBalancer_ok hok
  obtain ⟨hlb, -⟩ := getLoadBalancer_some hget
  unfold Orderly
  rw [hlbs, hzones]
  have hfits : Fits s.db.zones (s.db.loadBalancers.filter (·.id ≠ lb.id))
      (updatedBalancer lb data) := by
    rcases hplace with hfits | ⟨hzone, hhost, hmode⟩
    · exact hfits
    · exact fits_of_same (updatedBalancer lb data) h hlb rfl hzone hhost hmode
  exact rules_put h (List.mem_map_of_mem (f := (·.id)) hlb) hfits

/-- A deleted balancer leaves orderly rows. -/
theorem deleteLoadBalancer_orderly (h : s.Orderly) (id : Nat) :
    (s.afterwards (s.deleteLoadBalancer id)).Orderly := by
  apply orderly_afterwards h
  intro s' hok
  obtain ⟨lb, -, hlbs, hzones, -⟩ := deleteLoadBalancer_ok hok
  unfold Orderly
  rw [hlbs, hzones]
  exact rules_of_subset h fun lb hlb => (List.mem_filter.mp hlb).1

/-- A token changes no balancer and no zone. -/
theorem tokens_orderly (h : s.Orderly) {result : Except HttpError ControlPlane}
    (hdb : ∀ s', result = .ok s' → s'.db = s.db) : (s.afterwards result).Orderly := by
  apply orderly_afterwards h
  intro s' hok
  rw [Orderly, hdb s' hok]
  exact h

/-- A revoked token changes no table. -/
theorem revokeToken_db {id : Nat} {s' : ControlPlane} (h : s.revokeToken id = .ok s') :
    s'.db = s.db := by
  unfold revokeToken at h
  split at h
  · cases h
  · obtain rfl := Except.ok.inj h
    split <;> rfl

/-- Deleting a token leaves the other tables as they were. -/
theorem deleteToken_db {id : Nat} {s' : ControlPlane} (h : s.deleteToken id = .ok s') :
    s'.db = s.db := by
  unfold deleteToken at h
  split at h
  · obtain rfl := Except.ok.inj h
    rfl
  · cases h

/-- A new agent carries no balancer yet, so only the zone decides. -/
theorem enrolledBalancer_rules_iff (h : s.Orderly) (t : ProvisioningToken) :
    BalancerRules s.db.zones (s.db.loadBalancers ++
      [enrolledBalancer p t (nextId (s.db.loadBalancers.map (·.id))) (nextId s.db.agentIds)]) ↔
      s.HasPlace t := by
  refine (rules_append_iff _ h fun other hother heq => ?_).trans ?_
  · exact nextId_not_mem _ (List.mem_map.mpr ⟨other, hother, heq⟩)
  · constructor
    · intro hfits
      exact ⟨hfits.mode, hfits.vip⟩
    · rintro ⟨hmode, hvip⟩
      refine ⟨hmode, hvip, fun other hother heq => ?_⟩
      exact nextId_not_mem _ (heq ▸ s.balancerHosts other hother)

/-- A host that enrolls keeps the rules exactly when it was checked. -/
theorem enroll_orderly_iff (h : s.Orderly) (token : String) (payload : EnrollRequest) (now : Int) :
    (enroll p s token payload now).1.Orderly ↔ s.Checked p (.enroll token payload now) := by
  cases hcheckRequest : checkRequest p s token payload now with
  | error e =>
      refine iff_of_true ?_ fun admission hok => ?_
      · simpa [enroll, hcheckRequest] using h
      · rw [hcheckRequest] at hok
        cases hok
  | ok admission =>
      obtain ⟨hhost, hdb⟩ := enroll_db p hcheckRequest
      have hchecked : s.Checked p (.enroll token payload now) ↔
          (.dnsdist ∈ admission.ticket.asked → s.HasPlace admission.ticket) := by
        constructor
        · intro hall
          exact hall admission hcheckRequest
        · intro hplace other hok
          rw [hcheckRequest] at hok
          exact Except.ok.inj hok ▸ hplace
      have hrows : (enroll p s token payload now).1.Orderly ↔ BalancerRules s.db.zones
          (s.db.loadBalancers ++
            (askedBalancer p s.db admission.ticket (nextId s.db.agentIds)).toList) := by
        rw [Orderly, hdb]
        exact Iff.rfl
      rw [hrows, hchecked]
      by_cases hasked : .dnsdist ∈ admission.ticket.asked
      · rw [askedBalancer, if_pos hasked, imp_iff_right hasked]
        exact enrolledBalancer_rules_iff p h admission.ticket
      · rw [askedBalancer, if_neg hasked, Option.toList_none, List.append_nil]
        exact iff_of_true h fun hdnsdist => absurd hdnsdist hasked

/-- **One request keeps the rules exactly when it is checked.** -/
theorem serve_orderly_iff (h : s.Orderly) (request : Request) :
    (s.serve p request).Orderly ↔ s.Checked p request := by
  cases request with
  | createZone vip routerId others =>
      exact iff_of_true (createZone_orderly h p.toEnvironment vip routerId others) trivial
  | updateZone id vip routerId others =>
      exact updateZone_orderly_iff p h p.toEnvironment id vip routerId others
  | createLoadBalancer payload => exact iff_of_true (createLoadBalancer_orderly h payload) trivial
  | updateLoadBalancer id data => exact iff_of_true (updateLoadBalancer_orderly h id data) trivial
  | deleteLoadBalancer id => exact iff_of_true (deleteLoadBalancer_orderly h id) trivial
  | createToken payload text password now =>
      exact iff_of_true (tokens_orderly h fun _ hok => (createToken_ok hok).1) trivial
  | revokeToken id => exact iff_of_true (tokens_orderly h fun _ => revokeToken_db) trivial
  | deleteToken id => exact iff_of_true (tokens_orderly h fun _ => deleteToken_db) trivial
  | enroll token payload now => exact enroll_orderly_iff p h token payload now

/-! ## Runs -/

/-- A control plane before its first request. -/
def empty : ControlPlane where
  db :=
    { zones := []
      agents := []
      servers := []
      loadBalancers := []
      overrides := []
      zoneKeys := List.nodup_nil
      agentKeys := List.nodup_nil
      serverKeys := List.nodup_nil
      loadBalancerKeys := List.nodup_nil }
  tokens := []
  tokenKeys := List.nodup_nil
  serverHosts := fun _ hs => absurd hs List.not_mem_nil
  balancerHosts := fun _ hlb => absurd hlb List.not_mem_nil

/-- A plane without balancers is orderly. -/
theorem empty_orderly : empty.Orderly where
  oneMode _ hlb := absurd hlb List.not_mem_nil
  vip _ hlb := absurd hlb List.not_mem_nil
  oneHost _ hlb := absurd hlb List.not_mem_nil

/-- **The rules hold throughout exactly the runs whose requests are all checked.**
For every run from the empty control plane: in every state all balancers of a zone
share one mode, every direct-routing balancer's zone has a VIP and no host carries
two balancers, if and only if no update clears the VIP of a zone with a
direct-routing balancer and every enrollment of a balancer finds its zone without
one of the other mode and, for direct routing, with a VIP. -/
theorem orderly_iff_checked (requests : List Request) :
    Throughout (serve p) Orderly empty requests ↔ Along (serve p) (Checked p) empty requests :=
  throughout_iff_along (P := Orderly) (serve p) (fun _ request h => serve_orderly_iff p h request)
    empty_orderly requests

/-- A control plane with the default settings, whose CA signs every request. -/
def defaultProvisioner : Provisioner where
  toEnvironment := defaultEnvironment
  agentDefaultPort := 8443
  adguardDnsPort := 53
  tokenTtl := 86400
  signAgentCsr := fun csr _ _ => .ok csr

/-- A request for a host that runs a balancer for the first zone. -/
def balancerRequest (name : String) (mode : LbMode) : ProvisionRequest :=
  ⟨name, some 1, [.dnsdist], .docker, none, none, false, 100, mode, false⟩

/-- Two tokens of different modes are made while the zone has no balancer, and both
are redeemed. -/
def twoModes : List Request :=
  [.createZone (some "10.0.0.53/24") none (.ok ()),
    .createToken (balancerRequest "lb-a" .dnsdist) "a" "secret" 0,
    .createToken (balancerRequest "lb-b" .ipvs) "b" "secret" 0,
    .enroll "a" ⟨"csr", some "10.0.0.11", none⟩ 1,
    .enroll "b" ⟨"csr", some "10.0.0.12", none⟩ 2]

/-- Two hosts may enroll into one zone with different modes. -/
theorem zone_with_two_modes :
    ¬ ∀ requests, Throughout (serve defaultProvisioner) Orderly empty requests := by
  intro h
  have hrules := (throughout_last (serve defaultProvisioner) (h twoModes)).oneMode
  revert hrules
  decide +kernel

end ControlPlane

end AdguardAdmin
