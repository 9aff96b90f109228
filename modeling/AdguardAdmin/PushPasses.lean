import Mathlib.Logic.Function.Basic
import Mathlib.Data.List.Basic
/-!
# Passes that push what differs

Cells hold the digests of values.  A task wants values in some cells and wants others to be
stood down; it compares with the digests that the cells report when it starts, pushes what
differs, and ends when a push is refused.  A cell that is to be stood down is pushed another
value while it holds anything at all.

* `puts_eq_nil_iff` — a pass pushes nothing exactly when every want holds where it starts;
* `holds_after_pass_iff` — which cells a pass leaves as all its tasks want them;
* `runPass_of_mine` — the cells of some tasks are left alone by the others.
-/

namespace PushPasses

variable {κ S H : Type}

/-- What a task wants of a cell. -/
inductive Want (κ S : Type) where
  | push (key : κ) (value : S)
  /-- The value that stands the cell down. -/
  | standDown (key : κ) (value : S)
  deriving DecidableEq, Repr

namespace Want

def key : Want κ S → κ
  | .push key _ => key
  | .standDown key _ => key

def value : Want κ S → S
  | .push _ value => value
  | .standDown _ value => value

variable (digest : S → H)

/-- The want asks for no push. -/
def Holds (cells : κ → Option H) : Want κ S → Prop
  | .push key value => cells key = some (digest value)
  | .standDown key _ => cells key = none

instance [DecidableEq H] (cells : κ → Option H) (w : Want κ S) :
    Decidable (w.Holds digest cells) := by
  cases w <;> unfold Holds <;> infer_instance

end Want

/-- Where a task is: the cells, what has been pushed, and whether a push was refused. -/
structure Sent (κ S H : Type) where
  cells : κ → Option H
  puts : List (κ × S)
  refused : Bool

section Runs

variable [DecidableEq κ] [DecidableEq H] (digest : S → H) (accepts : κ → S → Bool)

def Sent.put (sent : Sent κ S H) (key : κ) (value : S) : Sent κ S H :=
  if accepts key value then
    { sent with
      cells := Function.update sent.cells key (some (digest value))
      puts := sent.puts ++ [(key, value)] }
  else { sent with puts := sent.puts ++ [(key, value)], refused := true }

/-- One want, compared with what was reported. -/
def Sent.want (reported : κ → Option H) (sent : Sent κ S H) (w : Want κ S) : Sent κ S H :=
  if sent.refused = true ∨ w.Holds digest reported then sent
  else sent.put digest accepts w.key w.value

def runTask (cells : κ → Option H) (task : List (Want κ S)) : Sent κ S H :=
  task.foldl (Sent.want digest accepts cells) ⟨cells, [], false⟩

/-- The tasks one after the other; a refusal ends its own task only. -/
def runPass (cells : κ → Option H) : List (List (Want κ S)) → (κ → Option H) × List (κ × S)
  | [] => (cells, [])
  | task :: rest =>
      let sent := runTask digest accepts cells task
      let (cells, puts) := runPass sent.cells rest
      (cells, sent.puts ++ puts)

end Runs

variable [DecidableEq κ] [DecidableEq H] {digest : S → H} {accepts : κ → S → Bool}
variable {cells reported : κ → Option H} {sent : Sent κ S H}

/-! ## Passes that push nothing -/

/-- What was pushed stays pushed. -/
theorem puts_want (sent : Sent κ S H) (w : Want κ S) :
    sent.puts <+: (sent.want digest accepts reported w).puts := by
  unfold Sent.want Sent.put
  split
  · exact List.prefix_rfl
  · split <;> exact List.prefix_append _ _

/-- A task puts further values behind those that were put. -/
theorem puts_foldl (task : List (Want κ S)) (sent : Sent κ S H) :
    sent.puts <+: (task.foldl (Sent.want digest accepts reported) sent).puts := by
  induction task generalizing sent with
  | nil => exact List.prefix_rfl
  | cons w rest ih => exact (puts_want sent w).trans (ih _)

/-- A task changes nothing where all its wants hold. -/
theorem foldl_of_holds {task : List (Want κ S)} (h : ∀ w ∈ task, w.Holds digest reported) :
    task.foldl (Sent.want digest accepts reported) sent = sent := by
  induction task with
  | nil => rfl
  | cons w rest ih =>
      rw [List.forall_mem_cons] at h
      rw [List.foldl_cons, Sent.want, if_pos (.inr h.1), ih h.2]

/-- A task pushes nothing where its wants hold, and only there. -/
theorem runTask_quiet (task : List (Want κ S)) :
    (runTask digest accepts cells task).puts = [] ↔ ∀ w ∈ task, w.Holds digest cells := by
  constructor
  · intro hnone
    have hstep : ∀ (task : List (Want κ S)) (sent : Sent κ S H), sent.refused = false →
        (task.foldl (Sent.want digest accepts cells) sent).puts = [] →
          ∀ w ∈ task, w.Holds digest cells := by
      intro task
      induction task with
      | nil => simp
      | cons w rest ih =>
          intro sent hrefused hputs
          have hholds : w.Holds digest cells := by
            by_contra hnot
            have hput : (sent.want digest accepts cells w).puts ≠ [] := by
              unfold Sent.want Sent.put
              rw [if_neg (by simp [hrefused, hnot])]
              split <;> simp
            have hprefix : (sent.want digest accepts cells w).puts <+:
                (rest.foldl (Sent.want digest accepts cells)
                  (sent.want digest accepts cells w)).puts := puts_foldl rest _
            rw [List.foldl_cons] at hputs
            rw [hputs, List.prefix_nil] at hprefix
            exact hput hprefix
          have hsame : sent.want digest accepts cells w = sent := by
            rw [Sent.want, if_pos (.inr hholds)]
          rw [List.foldl_cons, hsame] at hputs
          rw [List.forall_mem_cons]
          exact ⟨hholds, ih sent hrefused hputs⟩
    exact hstep task _ rfl hnone
  · intro hall
    rw [runTask, foldl_of_holds hall]

theorem runTask_cells (task : List (Want κ S)) (h : ∀ w ∈ task, w.Holds digest cells) :
    (runTask digest accepts cells task).cells = cells := by
  rw [runTask, foldl_of_holds h]

/-- **A pass that pushes nothing.** -/
theorem puts_eq_nil_iff (tasks : List (List (Want κ S))) :
    (runPass digest accepts cells tasks).2 = [] ↔
      ∀ task ∈ tasks, ∀ w ∈ task, w.Holds digest cells := by
  induction tasks generalizing cells with
  | nil => simp [runPass]
  | cons task rest ih =>
      rw [runPass, List.forall_mem_cons]
      dsimp only
      rw [List.append_eq_nil_iff, runTask_quiet]
      refine and_congr_right fun hquiet => ?_
      rw [ih, runTask_cells task hquiet]

/-! ## After a first pass -/

/-- What cells have to hold, and their keepers to accept, for a pass to settle them. -/
structure Settles (digest : S → H) (accepts : κ → S → Bool) (cells : κ → Option H)
    (wants : Want κ S → Prop) : Prop where
  /-- A value that is wanted is there, or accepted; and nothing else is wanted of its cell. -/
  pushed : ∀ key value, wants (.push key value) →
    (cells key = some (digest value) ∨ accepts key value = true) ∧
      ∀ other, wants other → other.key = key →
        ∃ value', other = .push key value' ∧ digest value' = digest value
  /-- A cell that is stood down is empty. -/
  stoodDown : ∀ key value, wants (.standDown key value) → cells key = none

/-- Values with one digest are accepted alike, as far as they are wanted. -/
def Alike (digest : S → H) (accepts : κ → S → Bool) (wants : Want κ S → Prop) : Prop :=
  ∀ key value value', wants (.push key value) → wants (.push key value') →
    digest value = digest value' → accepts key value = accepts key value'

/-- A cell is as it was, or has come to hold one of some values, which was accepted. -/
def Near (digest : S → H) (accepts : κ → S → Bool) (sources : κ → S → Prop)
    (before cells : κ → Option H) : Prop :=
  ∀ key, cells key = before key ∨
    ∃ value, sources key value ∧ accepts key value = true ∧ cells key = some (digest value)

section Settle

variable {wants : Want κ S → Prop} {sources : κ → S → Prop} {before : κ → Option H}

omit [DecidableEq H] in
/-- A push of a planned value leaves the cells near. -/
theorem Near.put {key : κ} {value : S} (h : Near digest accepts sources before sent.cells)
    (hsource : sources key value) :
    Near digest accepts sources before (sent.put digest accepts key value).cells := by
  unfold Sent.put
  split
  · next haccepts =>
      intro other
      dsimp only
      by_cases hkey : other = key
      · subst hkey
        rw [Function.update_self]
        exact .inr ⟨value, hsource, haccepts, rfl⟩
      · rw [Function.update_of_ne hkey]
        exact h other
  · exact h

/-- A task that pushes values near the sources keeps the cells near them. -/
theorem Near.foldl {task : List (Want κ S)} (h : Near digest accepts sources before sent.cells)
    (htask : ∀ w ∈ task, sources w.key w.value) :
    Near digest accepts sources before
      (task.foldl (Sent.want digest accepts reported) sent).cells := by
  induction task generalizing sent with
  | nil => exact h
  | cons w rest ih =>
      rw [List.forall_mem_cons] at htask
      apply ih _ htask.2
      unfold Sent.want
      split
      · exact h
      · exact h.put htask.1

/-- A pass that pushes values near the sources keeps the cells near them. -/
theorem Near.pass {tasks : List (List (Want κ S))} (h : Near digest accepts sources before cells)
    (htasks : ∀ task ∈ tasks, ∀ w ∈ task, sources w.key w.value) :
    Near digest accepts sources before (runPass digest accepts cells tasks).1 := by
  induction tasks generalizing cells with
  | nil => exact h
  | cons task rest ih =>
      rw [List.forall_mem_cons] at htasks
      have hfirst : Near digest accepts sources before
          (task.foldl (Sent.want digest accepts cells) ⟨cells, [], false⟩).cells :=
        Near.foldl h htasks.1
      exact ih hfirst htasks.2

/-- The values that are wanted and may have been pushed while everything is settled. -/
abbrev Pushed (wants : Want κ S → Prop) (key : κ) (value : S) : Prop := wants (.push key value)

omit [DecidableEq κ] [DecidableEq H] in
/-- Where wants are settled, one that does not hold asks for a push that is accepted. -/
theorem Settles.accepted (h : Settles digest accepts before wants)
    (hnear : Near digest accepts (Pushed wants) before reported) {w : Want κ S} (hw : wants w)
    (hnot : ¬ w.Holds digest reported) : ∃ key value, w = .push key value ∧
      accepts key value = true := by
  cases w with
  | push key value =>
      refine ⟨key, value, rfl, ?_⟩
      obtain ⟨hthere | haccepts, honly⟩ := h.pushed key value hw
      · rcases hnear key with hsame | ⟨other, hother, -, hheld⟩
        · exact absurd (hsame.trans hthere) hnot
        · obtain ⟨value', heq, hdigest⟩ := honly _ hother rfl
          obtain ⟨-, rfl⟩ := Want.push.inj heq
          exact absurd (hheld.trans (congrArg some hdigest)) hnot
      · exact haccepts
  | standDown key value =>
      have hempty := h.stoodDown key value hw
      rcases hnear key with hsame | ⟨other, hother, -, -⟩
      · exact absurd (hsame.trans hempty) hnot
      · obtain ⟨_, heq, -⟩ := (h.pushed key other hother).2 _ hw rfl
        cases heq

/-- A task that is going through its wants, where these are settled. -/
structure Settling (digest : S → H) (accepts : κ → S → Bool) (wants : Want κ S → Prop)
    (before reported : κ → Option H) (sent : Sent κ S H) : Prop where
  going : sent.refused = false
  near : Near digest accepts (Pushed wants) before sent.cells
  /-- What held when the task started still does. -/
  kept : ∀ w, wants w → w.Holds digest reported → w.Holds digest sent.cells

/-- One want: it holds afterwards, and so does what held before. -/
theorem Settling.want (h : Settling digest accepts wants before reported sent)
    (hsettles : Settles digest accepts before wants)
    (hreported : Near digest accepts (Pushed wants) before reported) {w : Want κ S}
    (hw : wants w) :
    Settling digest accepts wants before reported (sent.want digest accepts reported w) ∧
      w.Holds digest (sent.want digest accepts reported w).cells ∧
      ∀ other, wants other → other.Holds digest sent.cells →
        other.Holds digest (sent.want digest accepts reported w).cells := by
  by_cases hholds : w.Holds digest reported
  · have hsame : sent.want digest accepts reported w = sent := by
      rw [Sent.want, if_pos (.inr hholds)]
    rw [hsame]
    exact ⟨h, h.kept w hw hholds, fun _ _ hother => hother⟩
  · obtain ⟨key, value, rfl, haccepts⟩ := hsettles.accepted hreported hw hholds
    have hput : sent.want digest accepts reported (.push key value) =
        sent.put digest accepts key value := by
      rw [Sent.want, if_neg (by simp [h.going, hholds])]
      rfl
    have hcells : (sent.put digest accepts key value).cells =
        Function.update sent.cells key (some (digest value)) := by
      rw [Sent.put, if_pos haccepts]
    have hrefused : (sent.put digest accepts key value).refused = sent.refused := by
      rw [Sent.put, if_pos haccepts]
    -- another want of the cell is for a value with the same digest
    have hkeep : ∀ other, wants other → other.Holds digest sent.cells →
        other.Holds digest (sent.put digest accepts key value).cells := by
      intro other hother hbefore
      by_cases hkey : other.key = key
      · obtain ⟨value', rfl, hdigest⟩ := (hsettles.pushed key value hw).2 other hother hkey
        rw [hcells]
        exact (Function.update_self ..).trans (congrArg some hdigest.symm)
      · rw [hcells]
        cases other with
        | push key' value' => exact (Function.update_of_ne hkey ..).trans hbefore
        | standDown key' value' => exact (Function.update_of_ne hkey ..).trans hbefore
    rw [hput]
    refine ⟨⟨hrefused.trans h.going, h.near.put hw, ?_⟩, ?_, hkeep⟩
    · exact fun other hother hheld => hkeep other hother (h.kept other hother hheld)
    · rw [hcells]
      exact Function.update_self ..

/-- A whole task: its wants hold afterwards. -/
theorem Settling.task (hsettles : Settles digest accepts before wants)
    (hnear : Near digest accepts (Pushed wants) before cells) {task : List (Want κ S)}
    (htask : ∀ w ∈ task, wants w) :
    Near digest accepts (Pushed wants) before (runTask digest accepts cells task).cells ∧
      (∀ w ∈ task, w.Holds digest (runTask digest accepts cells task).cells) ∧
      ∀ other, wants other → other.Holds digest cells →
        other.Holds digest (runTask digest accepts cells task).cells := by
  have hstep : ∀ sent : Sent κ S H, Settling digest accepts wants before cells sent →
      Near digest accepts (Pushed wants) before
          (task.foldl (Sent.want digest accepts cells) sent).cells ∧
        (∀ w ∈ task, w.Holds digest (task.foldl (Sent.want digest accepts cells) sent).cells) ∧
        ∀ other, wants other → other.Holds digest sent.cells →
          other.Holds digest (task.foldl (Sent.want digest accepts cells) sent).cells := by
    induction task with
    | nil => exact fun sent h => ⟨h.near, by simp, fun _ _ hother => hother⟩
    | cons w rest ih =>
        rw [List.forall_mem_cons] at htask
        intro sent h
        obtain ⟨hnext, hholds, hkept⟩ := h.want hsettles hnear htask.1
        obtain ⟨hnear', hrest, hkept'⟩ := ih htask.2 _ hnext
        refine ⟨hnear', ?_, fun other hother hheld => hkept' other hother (hkept other hother hheld)⟩
        rw [List.forall_mem_cons]
        exact ⟨hkept' w htask.1 hholds, hrest⟩
  exact hstep ⟨cells, [], false⟩ ⟨rfl, hnear, fun _ _ h => h⟩

/-- What settles holds in all cells that are near. -/
theorem holds_of_settles (hsettles : Settles digest accepts before wants)
    (hnear : Near digest accepts (Pushed wants) before cells) {tasks : List (List (Want κ S))}
    (htasks : ∀ task ∈ tasks, ∀ w ∈ task, wants w) :
    (∀ task ∈ tasks, ∀ w ∈ task, w.Holds digest (runPass digest accepts cells tasks).1) ∧
      ∀ other, wants other → other.Holds digest cells →
        other.Holds digest (runPass digest accepts cells tasks).1 := by
  induction tasks generalizing cells with
  | nil => exact ⟨by simp, fun _ _ h => h⟩
  | cons task rest ih =>
      rw [List.forall_mem_cons] at htasks
      obtain ⟨hnear', hholds, hkept⟩ := Settling.task hsettles hnear htasks.1
      obtain ⟨hrest, hkept'⟩ := ih hnear' htasks.2
      refine ⟨?_, fun other hother hheld => hkept' other hother (hkept other hother hheld)⟩
      rw [List.forall_mem_cons]
      exact ⟨fun w hw => hkept' w (htasks.1 w hw) (hholds w hw), hrest⟩

/-- Wants that hold after a pass had been settled before it. -/
theorem settles_of_holds (halike : Alike digest accepts wants) {tasks : List (List (Want κ S))}
    (htasks : ∀ w, wants w ↔ ∃ task ∈ tasks, w ∈ task)
    (hholds : ∀ w, wants w → w.Holds digest (runPass digest accepts before tasks).1) :
    Settles digest accepts before wants := by
  have hnear : Near digest accepts
      (fun key value => ∃ w, wants w ∧ w.key = key ∧ w.value = value) before
      (runPass digest accepts before tasks).1 := by
    apply Near.pass fun _ => .inl rfl
    exact fun task htask w hw => ⟨w, (htasks w).mpr ⟨task, htask, hw⟩, rfl, rfl⟩
  constructor
  · intro key value hw
    have hheld : (runPass digest accepts before tasks).1 key = some (digest value) := hholds _ hw
    have honly : ∀ other, wants other → other.key = key →
        ∃ value', other = .push key value' ∧ digest value' = digest value := by
      intro other hother hkey
      have hsame := hholds other hother
      cases other with
      | push key' value' =>
          obtain rfl : key' = key := hkey
          exact ⟨value', rfl, Option.some.inj (hsame.symm.trans hheld)⟩
      | standDown key' value' =>
          obtain rfl : key' = key := hkey
          cases hheld.symm.trans hsame
    refine ⟨?_, honly⟩
    rcases hnear key with hsame | ⟨_, ⟨w, hother, hkey, rfl⟩, haccepts, -⟩
    · exact .inl (hsame.symm.trans hheld)
    · obtain ⟨value', rfl, hdigest⟩ := honly w hother hkey
      exact .inr ((halike key value value' hw hother hdigest.symm).trans haccepts)
  · intro key value hw
    have hempty : (runPass digest accepts before tasks).1 key = none := hholds _ hw
    rcases hnear key with hsame | ⟨_, -, -, hheld⟩
    · exact hsame.symm.trans hempty
    · cases hheld.symm.trans hempty

/-- **A pass leaves every cell as it is wanted** exactly when the wants could be settled. -/
theorem holds_after_pass_iff (halike : Alike digest accepts wants) {tasks : List (List (Want κ S))}
    (htasks : ∀ w, wants w ↔ ∃ task ∈ tasks, w ∈ task) :
    (∀ w, wants w → w.Holds digest (runPass digest accepts before tasks).1) ↔
      Settles digest accepts before wants := by
  constructor
  · exact settles_of_holds halike htasks
  · intro hsettles w hw
    obtain ⟨task, htask, hmem⟩ := (htasks w).mp hw
    have hwants : ∀ task ∈ tasks, ∀ w ∈ task, wants w :=
      fun task htask w hw => (htasks w).mpr ⟨task, htask, hw⟩
    exact (holds_of_settles hsettles (fun _ => .inl rfl) hwants).1 task htask w hmem

end Settle

/-! ## Tasks with cells of their own -/

section Apart

/-- Two places that agree on some cells, and on whether a push was refused. -/
structure Agree (mine : κ → Bool) (sent sent' : Sent κ S H) : Prop where
  cells : ∀ key, mine key = true → sent.cells key = sent'.cells key
  refused : sent.refused = sent'.refused

variable {mine : κ → Bool} {cells' reported' : κ → Option H} {sent' : Sent κ S H}

omit [DecidableEq κ] [DecidableEq H] in
/-- A want holds alike where the cells agree on its own. -/
theorem Want.holds_congr {w : Want κ S} (h : reported w.key = reported' w.key) :
    w.Holds digest reported ↔ w.Holds digest reported' := by
  cases w with
  | push key value => exact iff_of_eq (congrArg (· = some (digest value)) h)
  | standDown key value => exact iff_of_eq (congrArg (· = none) h)

/-- Passes that agree on some cells agree after a want of one of them. -/
theorem Agree.want (h : Agree mine sent sent')
    (hreported : ∀ key, mine key = true → reported key = reported' key) {w : Want κ S}
    (hw : mine w.key = true) :
    Agree mine (sent.want digest accepts reported w) (sent'.want digest accepts reported' w) := by
  have hholds : w.Holds digest reported ↔ w.Holds digest reported' :=
    Want.holds_congr (hreported w.key hw)
  have hstill : (sent.refused = true ∨ w.Holds digest reported) ↔
      (sent'.refused = true ∨ w.Holds digest reported') := by
    rw [h.refused, hholds]
  unfold Sent.want
  by_cases hsame : sent'.refused = true ∨ w.Holds digest reported'
  · rw [if_pos (hstill.mpr hsame), if_pos hsame]
    exact h
  · rw [if_neg (mt hstill.mp hsame), if_neg hsame]
    unfold Sent.put
    split
    · refine ⟨fun key hkey => ?_, h.refused⟩
      dsimp only
      by_cases hown : key = w.key
      · rw [hown, Function.update_self, Function.update_self]
      · rw [Function.update_of_ne hown, Function.update_of_ne hown]
        exact h.cells key hkey
    · exact ⟨h.cells, rfl⟩

/-- Passes that agree on some cells agree after a task of those cells. -/
theorem Agree.foldl {task : List (Want κ S)} (h : Agree mine sent sent')
    (hreported : ∀ key, mine key = true → reported key = reported' key)
    (htask : ∀ w ∈ task, mine w.key = true) :
    Agree mine (task.foldl (Sent.want digest accepts reported) sent)
      (task.foldl (Sent.want digest accepts reported') sent') := by
  induction task generalizing sent sent' with
  | nil => exact h
  | cons w rest ih =>
      rw [List.forall_mem_cons] at htask
      exact ih (h.want hreported htask.1) htask.2

/-- A task leaves the cells it does not want as they are. -/
theorem foldl_other {task : List (Want κ S)} {key : κ} (htask : ∀ w ∈ task, w.key ≠ key) :
    (task.foldl (Sent.want digest accepts reported) sent).cells key = sent.cells key := by
  induction task generalizing sent with
  | nil => rfl
  | cons w rest ih =>
      rw [List.forall_mem_cons] at htask
      rw [List.foldl_cons, ih htask.2]
      unfold Sent.want Sent.put
      split
      · rfl
      · split
        · exact Function.update_of_ne htask.1.symm ..
        · rfl

/-- A cell that nothing is wanted of stays as it is. -/
theorem runPass_other {tasks : List (List (Want κ S))} {key : κ}
    (htasks : ∀ task ∈ tasks, ∀ w ∈ task, w.key ≠ key) :
    (runPass digest accepts cells tasks).1 key = cells key := by
  induction tasks generalizing cells with
  | nil => rfl
  | cons task rest ih =>
      rw [List.forall_mem_cons] at htasks
      exact (ih htasks.2).trans (foldl_other htasks.1)

/-- **The tasks of some cells settle them alone**, where no task is about both these and others. -/
theorem runPass_of_mine {tasks : List (List (Want κ S))}
    (htasks : ∀ task ∈ tasks, (∀ w ∈ task, mine w.key = true) ∨ ∀ w ∈ task, mine w.key = false)
    (hcells : ∀ key, mine key = true → cells key = cells' key) {key : κ} (hkey : mine key = true) :
    (runPass digest accepts cells tasks).1 key =
      (runPass digest accepts cells' (tasks.filter fun task => task.all (mine ·.key))).1 key := by
  induction tasks generalizing cells cells' with
  | nil => exact hcells key hkey
  | cons task rest ih =>
      rw [List.forall_mem_cons] at htasks
      by_cases hall : (task.all (mine ·.key)) = true
      · rw [List.filter_cons, if_pos hall]
        have htask : ∀ w ∈ task, mine w.key = true := by simpa using hall
        have hagree : Agree mine (⟨cells, [], false⟩ : Sent κ S H) ⟨cells', [], false⟩ :=
          ⟨hcells, rfl⟩
        exact ih htasks.2 (hagree.foldl hcells htask).cells
      · rw [List.filter_cons, if_neg hall]
        have htask : ∀ w ∈ task, mine w.key = false :=
          htasks.1.resolve_left fun h => hall (by simpa using h)
        refine ih htasks.2 fun other hother => ?_
        refine (foldl_other fun w hw heq => ?_).trans (hcells other hother)
        rw [← heq, htask w hw] at hother
        cases hother

end Apart

end PushPasses
