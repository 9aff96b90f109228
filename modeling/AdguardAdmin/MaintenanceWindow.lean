import Mathlib
import AdguardAdmin.Updater
/-!
# The maintenance window

`AUTO_UPDATE_WINDOW` is two times of the day with a hyphen between them; the window may wrap
midnight.

* `accepted_windows` — the accepted texts denote exactly the windows between two different
  times of the day: a window is open for the minutes from its start to its end, and the window
  with both ends exchanged for the rest of the day.
-/

namespace AdguardAdmin.Updater

open PyText

/-- `_minutes`: a time of the day, in minutes since midnight. -/
def minutes (hhmm : List Char) : Option Nat :=
  match (stripBy isSpace hhmm).splitOn ':' with
  | [hours, mins] =>
      match int? (String.ofList hours), int? (String.ofList mins) with
      | some h, some m =>
          if (0 ≤ h ∧ h ≤ 23) ∧ 0 ≤ m ∧ m ≤ 59 then some (h * 60 + m).toNat else none
      | _, _ => none
  | _ => none

/-- `parse_window`: the text is split at its first hyphen. -/
def parseWindow (value : String) : Window :=
  let text := stripBy isSpace value.toList
  if text = [] then .anyTime
  else
    match text.dropWhile (· ≠ '-') with
    | [] => .malformed
    | _ :: stop =>
        match minutes (text.takeWhile (· ≠ '-')), minutes stop with
        | some a, some b => if a = b then .malformed else .between a b
        | _, _ => .malformed

/-- The minutes from one time of the day to another one. -/
def minutesFrom (start time : Nat) : Nat := (time + 1440 - start) % 1440

/-- The minute of the day. -/
def minuteOfDay (now : Nat) : Nat := now / 60 % 1440

/-! ## Accepted texts -/

/-- A time of day is below 24 hours. -/
theorem minutes_lt {text : List Char} {m : Nat} (h : minutes text = some m) : m < 1440 := by
  unfold minutes at h
  split at h
  · split at h
    · split at h
      · next hrange =>
          obtain rfl := Option.some.inj h
          omega
      · cases h
    · cases h
  · cases h

/-- The two times of a window differ. -/
theorem parseWindow_between {value : String} {start stop : Nat}
    (h : parseWindow value = .between start stop) : start < 1440 ∧ stop < 1440 ∧ start ≠ stop := by
  unfold parseWindow at h
  simp only at h
  split at h
  · cases h
  split at h
  · cases h
  split at h
  · next a b ha hb =>
      split at h
      · cases h
      · next hne =>
          obtain ⟨rfl, rfl⟩ := Window.between.inj h
          exact ⟨minutes_lt ha, minutes_lt hb, hne⟩
  · cases h

/-- A number below 100 in two digits. -/
def twoDigits (n : Nat) : List Char := [Nat.digitChar (n / 10), Nat.digitChar (n % 10)]

/-- A time of the day as `HH:MM`. -/
def spellTime (m : Nat) : List Char := twoDigits (m / 60) ++ ':' :: twoDigits (m % 60)

/-- Two digits are read back. -/
theorem int?_twoDigits {n : Nat} (h : n < 60) : int? (String.ofList (twoDigits n)) = some ↑n := by
  have hall : ∀ n : Fin 60, int? (String.ofList (twoDigits n)) = some ↑n.val := by decide +kernel
  exact hall ⟨n, h⟩

/-- Two digits of a clock have no blank, colon or hyphen. -/
theorem mem_twoDigits {n : Nat} (h : n < 60) {c : Char} (hc : c ∈ twoDigits n) :
    isSpace c = false ∧ c ≠ ':' ∧ c ≠ '-' := by
  have hall : ∀ n : Fin 60, (twoDigits n).all fun c => !isSpace c && c != ':' && c != '-' := by
    decide +kernel
  simpa [and_assoc] using List.all_eq_true.mp (hall ⟨n, h⟩) c hc

/-- A time is digits and a colon. -/
theorem mem_spellTime {m : Nat} (h : m < 1440) {c : Char} (hc : c ∈ spellTime m) :
    isSpace c = false ∧ c ≠ '-' := by
  rcases List.mem_append.mp hc with hhours | hrest
  · exact ⟨(mem_twoDigits (by omega) hhours).1, (mem_twoDigits (by omega) hhours).2.2⟩
  rcases List.mem_cons.mp hrest with rfl | hmins
  · exact ⟨by decide, by decide⟩
  · exact ⟨(mem_twoDigits (by omega) hmins).1, (mem_twoDigits (by omega) hmins).2.2⟩

/-- A time that is spelled is read back. -/
theorem minutes_spellTime {m : Nat} (h : m < 1440) : minutes (spellTime m) = some m := by
  have hstrip : stripBy isSpace (spellTime m) = spellTime m :=
    stripBy_eq_self fun c hc => (mem_spellTime h hc).1
  have hcolon : ∀ n < 60, ∀ c ∈ twoDigits n, (c == ':') = false :=
    fun n hn c hc => beq_eq_false_iff_ne.mpr (mem_twoDigits hn hc).2.1
  have hsplit : (spellTime m).splitOn ':' = [twoDigits (m / 60), twoDigits (m % 60)] := by
    unfold spellTime List.splitOn
    rw [List.splitOnP_append_cons_of_forall_mem (hcolon _ (by omega)) ':' rfl,
      List.splitOnP_eq_singleton (hcolon _ (by omega))]
  unfold minutes
  simp only [hstrip, hsplit, int?_twoDigits (show m / 60 < 60 by omega),
    int?_twoDigits (show m % 60 < 60 by omega)]
  rw [if_pos (by omega)]
  exact congrArg some (by omega)

/-- A window that is spelled is read back. -/
theorem parseWindow_spell {start stop : Nat} (hstart : start < 1440) (hstop : stop < 1440)
    (hne : start ≠ stop) :
    parseWindow (String.ofList (spellTime start ++ '-' :: spellTime stop)) =
      .between start stop := by
  have hfront : ∀ c ∈ spellTime start, decide (c ≠ '-') = true :=
    fun c hc => decide_eq_true (mem_spellTime hstart hc).2
  have hstrip : stripBy isSpace (spellTime start ++ '-' :: spellTime stop) =
      spellTime start ++ '-' :: spellTime stop := by
    refine stripBy_eq_self fun c hc => ?_
    rcases List.mem_append.mp hc with hleft | hright
    · exact (mem_spellTime hstart hleft).1
    rcases List.mem_cons.mp hright with rfl | hright
    · decide
    · exact (mem_spellTime hstop hright).1
  unfold parseWindow
  simp only [String.toList_ofList, hstrip]
  rw [if_neg (by simp), List.dropWhile_append_of_pos hfront, List.takeWhile_append_of_pos hfront,
    List.dropWhile_cons_of_neg (by simp), List.takeWhile_cons_of_neg (by simp), List.append_nil]
  simp only [minutes_spellTime hstart, minutes_spellTime hstop]
  rw [if_neg hne]

/-! ## Open and closed -/

section Between

variable {settings : Settings} {start stop : Nat}

/-- The window is open for the minutes from its start to its end. -/
theorem inMaintenanceWindow_iff (hwindow : settings.autoUpdateWindow = .between start stop)
    (hstart : start < 1440) (hstop : stop < 1440) (hne : start ≠ stop) (now : Nat) :
    inMaintenanceWindow settings now = true ↔
      minutesFrom start (minuteOfDay now) < minutesFrom start stop := by
  have hclock : now / 60 % 1440 < 1440 := Nat.mod_lt _ (by decide)
  unfold inMaintenanceWindow minutesFrom minuteOfDay
  simp only [hwindow]
  split
  · simp only [Bool.and_eq_true, decide_eq_true_eq]
    omega
  · simp only [Bool.or_eq_true, decide_eq_true_eq]
    omega

/-- The minutes of a day less than `n` minutes after a time are `n` many. -/
theorem card_minutesFrom (hstart : start < 1440) {n : Nat} (hn : n ≤ 1440) :
    ((Finset.range 1440).filter fun m => minutesFrom start m < n).card = n := by
  have hinto : Set.MapsTo (minutesFrom start)
      ((Finset.range 1440).filter fun m => minutesFrom start m < n) (Finset.range n) :=
    fun m hm => by simpa using (Finset.mem_filter.mp hm).2
  have hinj : Set.InjOn (minutesFrom start)
      ((Finset.range 1440).filter fun m => minutesFrom start m < n) := by
    intro a ha b hb hab
    have hlt : a < 1440 := by simpa using (Finset.mem_filter.mp ha).1
    have hlt' : b < 1440 := by simpa using (Finset.mem_filter.mp hb).1
    unfold minutesFrom at hab
    omega
  have honto : Set.SurjOn (minutesFrom start)
      ((Finset.range 1440).filter fun m => minutesFrom start m < n) (Finset.range n) := by
    intro k hk
    have hlt : k < n := by simpa using hk
    have hback : minutesFrom start ((start + k) % 1440) = k := by
      unfold minutesFrom
      omega
    refine ⟨(start + k) % 1440, ?_, hback⟩
    refine Finset.mem_filter.mpr ⟨Finset.mem_range.mpr (Nat.mod_lt _ (by decide)), ?_⟩
    rwa [hback]
  rw [Finset.card_nbij _ hinto hinj honto, Finset.card_range]

/-- Of a window and the one with its times swapped exactly one is open. -/
theorem inMaintenanceWindow_swap (hstart : start < 1440) (hstop : stop < 1440)
    (hne : start ≠ stop) (now : Nat) :
    inMaintenanceWindow { settings with autoUpdateWindow := .between stop start } now =
      !inMaintenanceWindow { settings with autoUpdateWindow := .between start stop } now := by
  have hclock : minuteOfDay now < 1440 := Nat.mod_lt _ (by decide)
  rw [Bool.eq_iff_iff, inMaintenanceWindow_iff rfl hstop hstart (Ne.symm hne), Bool.not_eq_true',
    ← Bool.not_eq_true, inMaintenanceWindow_iff rfl hstart hstop hne]
  unfold minutesFrom
  omega

end Between

/-- **The accepted windows are those between two different times of the day.**  One is open for
as many minutes as lie between its ends, and open exactly when the window with its ends
exchanged is closed. -/
theorem accepted_windows (start stop : Nat) :
    ((∃ value, parseWindow value = .between start stop) ↔
        start < 1440 ∧ stop < 1440 ∧ start ≠ stop) ∧
      ∀ (value : String) (settings : Settings), parseWindow value = .between start stop →
        settings.autoUpdateWindow = parseWindow value →
          (∀ now, inMaintenanceWindow settings now = true ↔
            minutesFrom start (minuteOfDay now) < minutesFrom start stop) ∧
          ((Finset.range 1440).filter fun m =>
            inMaintenanceWindow settings (60 * m) = true).card = minutesFrom start stop ∧
          ∀ now, inMaintenanceWindow
            { settings with autoUpdateWindow := .between stop start } now =
              !inMaintenanceWindow settings now := by
  refine ⟨⟨fun ⟨value, hvalue⟩ => parseWindow_between hvalue, fun h =>
    ⟨_, parseWindow_spell h.1 h.2.1 h.2.2⟩⟩, ?_⟩
  intro value settings hvalue hsettings
  obtain ⟨hstart, hstop, hne⟩ := parseWindow_between hvalue
  have hwindow : settings.autoUpdateWindow = .between start stop := hsettings.trans hvalue
  have hiff := inMaintenanceWindow_iff hwindow hstart hstop hne
  refine ⟨hiff, ?_, fun now => ?_⟩
  · have hclock : ∀ m ∈ Finset.range 1440, minuteOfDay (60 * m) = m := by
      intro m hm
      have hlt : m < 1440 := Finset.mem_range.mp hm
      unfold minuteOfDay
      omega
    have hfilter : ((Finset.range 1440).filter fun m =>
        inMaintenanceWindow settings (60 * m) = true) =
          (Finset.range 1440).filter fun m => minutesFrom start m < minutesFrom start stop :=
      Finset.filter_congr fun m hm => by rw [hiff, hclock m hm]
    have hle : minutesFrom start stop ≤ 1440 := Nat.le_of_lt (Nat.mod_lt _ (by decide))
    rw [hfilter, card_minutesFrom hstart hle]
  · have hsame : settings = { settings with autoUpdateWindow := .between start stop } := by
      rw [← hwindow]
    rw [inMaintenanceWindow_swap hstart hstop hne, ← hsame]

example : parseWindow " 23:30-02:00 " = .between 1410 120 := by decide +kernel

end AdguardAdmin.Updater
