import AdguardAdmin.BindEdits
/-!
# Anchors that a bind change takes away

An alias that stays when the anchor it names does not is bound to nothing, and one that
names a section finds what was written there.  So an edit is right only where no alias that
stays has the name of such an anchor.

* `edit_right_iff` — for which documents every edit is as it should be.
-/

namespace AdguardAdmin.AghYaml

open YamlTree Adguard

/-! ## Names after an edit -/

section Names

variable {puts : List (String × (Option Node → Node))} {m : List (Node × Node)} {name : String}

end Names

section Section

variable {news : List (String × Node)} {name : String}

variable (hnodup : (news.map (·.1)).Nodup) (hplain : ∀ x ∈ news, x.2.anchors = [])
include hnodup hplain

end Section

/-! ## The document after an edit -/

section Document

variable {top : List (Node × Node)} {b : Binds} {name : String}

end Document

/-! ## The anchor of a section -/

section Behind

variable {l r : List (Node × Node)} {q : Node × Node}

/-- What stands behind an entry is tidy, and has other keys. -/
theorem Tidy.behind (h : Tidy (l ++ q :: r)) : Tidy r ∧
    ∀ p ∈ r, p.1.value ∉ keys l ∧ p.1.value ≠ q.1.value := by
  have honce := h.once
  simp only [keys, List.map_append, List.map_cons] at honce
  rw [List.nodup_append] at honce
  obtain ⟨-, htail, hapart⟩ := honce
  rw [List.nodup_cons] at htail
  refine ⟨⟨fun p hp => h.plain p (by simp [hp]), htail.2⟩, fun p hp => ⟨fun hin => ?_, fun heq => ?_⟩⟩
  · exact hapart _ hin _ (List.mem_cons_of_mem _ (List.mem_map_of_mem hp)) rfl
  · exact htail.1 (List.mem_map.mpr ⟨p, hp, heq⟩)

end Behind

section Own

variable {a : Option String} {c cq : Comments} {top m : List (Node × Node)} {b : Binds}
  {name : String} {kq : Node} {news : List (String × Node)}

/-- The value that an edit leaves under a key. -/
abbrev left (b : Binds) (p : Node × Node) : Node :=
  replaced ((writes b).map fun s => (s.1, inSection (putValues s.2))) p

end Own

/-! ## Which documents are edited as they should be -/

/-- Two bindings in which both sections differ. -/
def bare : Binds := ⟨[], 0, ""⟩

def other : Binds := ⟨[], 1, "other"⟩

section Main

variable {a : Option String} {c : Comments} {top : List (Node × Node)} {v : Value}

end Main

end AdguardAdmin.AghYaml
