import PointsTo.Proofs.Program.Draft

/-!
# Entries of programs

Only one kind of edit changes the entries of a program, and it adds an entry behind the others
unless it is one already. So no program that a front end builds has an entry twice.
-/

namespace PointsTo

namespace Draft

variable {d d' : Draft}

theorem entries_pushParams (d : Draft) (m : MethodId) (names : List String) :
    (d.pushParams m names).2.program.entries = d.program.entries := by
  induction names generalizing d with
  | nil => rfl
  | cons name names ih => exact ih (d.pushVar ⟨m, name⟩).2

theorem entries_addMethod {c : ClassId} {s : Subsignature} {isStatic isAbstract : Bool}
    {params : List String} {m : MethodId}
    (done : d.addMethod c s isStatic isAbstract params = .ok (m, d')) :
    d'.program.entries = d.program.entries := by
  obtain ⟨-, edited⟩ := bind_pure_mk_eq_ok_iff.1 done
  obtain ⟨-, rfl⟩ := editClass_eq_ok_iff.1 edited
  refine (entries_pushParams _ _ params).trans ?_
  cases isStatic <;> rfl

/-- An edit leaves the entries alone or adds one. -/
theorem Edit.entries (edit : Edit d d') : d'.program.entries = d.program.entries ∨
    ∃ m, d'.program.entries = addNew d.program.entries m := by
  cases edit with
  | addEntry m => exact Or.inr ⟨m, rfl⟩
  | addMethod done => exact Or.inl (entries_addMethod done)
  | editClass done kept =>
    obtain ⟨-, rfl⟩ := editClass_eq_ok_iff.1 done
    exact Or.inl rfl
  | addStmt done =>
    obtain ⟨-, rfl⟩ := editMethod_eq_ok_iff.1 done
    exact Or.inl rfl
  | addClass bare | setObjectClass c | pushField f | pushVar v | pushInvoke call => exact Or.inl rfl

theorem nodup_entries_of_edits (nodup : d.program.entries.Nodup) (edits : Edits d d') :
    d'.program.entries.Nodup := by
  induction edits with
  | refl => exact nodup
  | tail _ edit ih =>
    rcases edit.entries with same | ⟨m, same⟩
    · rwa [same]
    · rw [same]
      exact nodup_addNew ih

end Draft

/-- No entry is listed twice. -/
theorem Program.Built.nodup_entries {p : Program} (built : p.Built) : p.entries.Nodup := by
  obtain ⟨l, d, declared, built⟩ := built
  obtain ⟨⟨⟩, -, same⟩ := bind_eq_ok_iff.1 built
  obtain rfl := pure_eq_ok_iff.1 same
  exact Draft.nodup_entries_of_edits List.nodup_nil (Draft.edits_of_declareAll declared)

end PointsTo
