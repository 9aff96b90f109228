import AdguardAdmin.HealthCheckNames
import AdguardAdmin.BalancerPlan
/-!
# Backend names

`backendNameFor` maps the name and the id of a server to a name the agent's two
decoders know the backend by.  The id makes names distinct, the character classes
agree; only the length can exceed what the agent takes.
-/

namespace AdguardAdmin

open GoText

/-- A decoder that goes through a list and keeps the names it has seen asks the first
item for a new name and the rest for names other than that one too. -/
theorem newNames_cons {α : Type} {P : α → Prop} {name : α → String} {seen : List String} {a : α}
    {l : List α} :
    ((∀ b ∈ a :: l, P b) ∧ ((a :: l).map name).Nodup ∧ ∀ b ∈ a :: l, name b ∉ seen) ↔
      P a ∧ name a ∉ seen ∧
        (∀ b ∈ l, P b) ∧ (l.map name).Nodup ∧ ∀ b ∈ l, name b ∉ name a :: seen := by
  rw [List.forall_mem_cons, List.forall_mem_cons]
  simp only [List.map_cons, List.nodup_cons, List.mem_map, not_exists, not_and, List.mem_cons,
    not_or]
  constructor
  · rintro ⟨⟨ha, hl⟩, ⟨hfresh, hnodup⟩, hnew, hseen⟩
    exact ⟨ha, hnew, hl, hnodup, fun b hb => ⟨hfresh b hb, hseen b hb⟩⟩
  · rintro ⟨ha, hnew, hl, hnodup, hseen⟩
    exact ⟨⟨ha, hl⟩, ⟨fun b hb => (hseen b hb).1, hnodup⟩, hnew, fun b hb => (hseen b hb).2⟩

/-- Safe characters are characters of names. -/
theorem isNameChar_of_isSafeChar {c : Char} (h : isSafeChar c = true) : isNameChar c = true := by
  simp only [isSafeChar, decide_eq_true_eq] at h
  simp only [isNameChar, Bool.or_eq_true, decide_eq_true_eq]
  tauto

/-- What is hyphenated consists of the characters of names. -/
theorem hyphenate_chars (cs : List Char) : ∀ c ∈ hyphenate cs, isNameChar c = true := by
  induction cs with
  | nil => simp [hyphenate]
  | cons d cs ih =>
      have hhead : isNameChar (if isSafeChar d then d else '-') = true := by
        split
        · next hsafe => exact isNameChar_of_isSafeChar hsafe
        · decide
      cases cs with
      | nil => simpa [hyphenate] using hhead
      | cons e cs =>
          unfold hyphenate
          intro c hc
          split at hc
          · next hsafe =>
              rcases List.mem_cons.mp hc with rfl | hc
              · exact isNameChar_of_isSafeChar hsafe
              · exact ih c hc
          · split at hc
            · rcases List.mem_cons.mp hc with rfl | hc
              · decide
              · exact ih c hc
            · exact ih c hc

/-- Every character of the base of a backend's name is allowed in one. -/
theorem backendBase_chars (name : String) : ∀ c ∈ backendBase name, isNameChar c = true := by
  intro c hc
  unfold backendBase at hc
  dsimp only at hc
  split at hc
  · have hserver : "server".toList.all isNameChar = true := by decide
    exact List.all_eq_true.mp hserver c hc
  · exact hyphenate_chars _ c ((PyText.stripBy_sublist _ _).mem hc)

theorem isNameChar_of_mem_toDigits {n : Nat} {c : Char} (hc : c ∈ Nat.toDigits 10 n) :
    isNameChar c = true := by
  simp [isNameChar, isAlphanum_of_decDigit? (decDigit?_of_mem_toDigits hc)]

/-- The name of a backend is a piece of its base and its id. -/
theorem toList_backendNameFor (name : String) (id : Nat) :
    (backendNameFor name id).toList = (backendBase name).take 50 ++ '-' :: Nat.toDigits 10 id := by
  simp [backendNameFor]

/-- Name and id leave room for the hyphen. -/
def NameFits (s : Server) : Prop :=
  min 50 (backendBase s.name).length + (Nat.toDigits 10 s.id).length ≤ 63

/-- **Backend names match the agent's pattern** as far as their length goes. -/
theorem isName_backendNameFor_iff (s : Server) :
    matchesClass isNameChar 64 (backendNameFor s.name s.id) = true ↔ NameFits s := by
  have hchars : ∀ c ∈ (backendNameFor s.name s.id).toList, isNameChar c = true := by
    intro c hc
    rw [toList_backendNameFor, List.mem_append, List.mem_cons] at hc
    rcases hc with hc | rfl | hc
    · exact backendBase_chars s.name c (List.mem_of_mem_take hc)
    · decide
    · exact isNameChar_of_mem_toDigits hc
  have hlen : (backendNameFor s.name s.id).toList.length =
      min 50 (backendBase s.name).length + ((Nat.toDigits 10 s.id).length + 1) := by
    simp [toList_backendNameFor]
  have hne : (backendNameFor s.name s.id).toList ≠ [] := by simp [toList_backendNameFor]
  simp only [matchesClass, Bool.and_eq_true, decide_eq_true_eq, List.all_eq_true]
  unfold NameFits
  constructor
  · rintro ⟨⟨-, hle⟩, -⟩
    omega
  · intro hle
    exact ⟨⟨by simpa using hne, by omega⟩, hchars⟩

/-- Different ids have different digits. -/
theorem toDigits_injective {n m : Nat} (h : Nat.toDigits 10 n = Nat.toDigits 10 m) : n = m := by
  have hread := decimal?_toDigits n
  rw [h, decimal?_toDigits m] at hread
  exact (Option.some.inj hread).symm

/-- **Backend names are unique by id**: the id is what follows the last hyphen. -/
theorem backendNameFor_injective {name name' : String} {id id' : Nat}
    (h : backendNameFor name id = backendNameFor name' id') : id = id' := by
  have hlist := congrArg String.toList h
  rw [toList_backendNameFor, toList_backendNameFor] at hlist
  have hback := congrArg List.reverse hlist
  simp only [List.reverse_append, List.reverse_cons, List.append_assoc, List.singleton_append]
    at hback
  have hcut : ∀ (n : Nat) (front : List Char),
      cut? '-' ((Nat.toDigits 10 n).reverse ++ '-' :: front) =
        some ((Nat.toDigits 10 n).reverse, front) := by
    intro n front
    refine cut?_eq_some.mpr ⟨rfl, ?_⟩
    rw [List.mem_reverse]
    exact not_mem_toDigits (by decide) n
  have hdigits := hcut id (List.take 50 (backendBase name)).reverse
  rw [hback, hcut id'] at hdigits
  obtain ⟨hdigits, -⟩ := Prod.mk.inj (Option.some.inj hdigits)
  exact (toDigits_injective (List.reverse_injective hdigits)).symm

/-- The names of a pool are pairwise distinct. -/
theorem desiredBackends_names_nodup (env : Environment) (db : Database) (lb : LoadBalancer) :
    ((desiredBackends env db lb).map (·.name)).Nodup := by
  unfold desiredBackends
  cases lb.zoneId with
  | none => simp
  | some zoneId =>
      have hids : ((zoneServers db zoneId).map (·.id)).Nodup := by
        have hperm := (List.perm_insertionSort (fun a b : Server => a.name ≤ b.name)
          (db.servers.filter fun s => s.zoneId = some zoneId ∧ s.enabled)).map (·.id)
        exact hperm.nodup_iff.mpr (db.serverKeys.sublist (List.filter_sublist.map _))
      rw [List.Nodup, List.pairwise_map] at hids ⊢
      refine List.pairwise_filterMap.mpr (hids.imp ?_)
      intro s t hne b hb b' hb' hname
      apply hne
      rw [(backendTarget_eq_some hb).2.2.2.1, (backendTarget_eq_some hb').2.2.2.1] at hname
      exact backendNameFor_injective hname

/-- The enabled backends of a balancer have different names. -/
theorem enabledBackends_names_nodup (env : Environment) (db : Database) (lb : LoadBalancer) :
    (((desiredBackends env db lb).filter (·.enabled)).map (·.name)).Nodup :=
  (desiredBackends_names_nodup env db lb).sublist (List.filter_sublist.map _)

end AdguardAdmin
