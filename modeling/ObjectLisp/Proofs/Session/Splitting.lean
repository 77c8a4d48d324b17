import ObjectLisp.Proofs.Reader.Joining
import ObjectLisp.Proofs.Session

/-!
# One source or two

A source may be cut at a line break between its statements. Running the first part and then, if
nothing failed, the second part is the same as running both at once: the tokens and the statements
are the same, and statements are executed one after another in any case.
-/

namespace ObjectLisp

variable {host : Host} {i k : Interpreter}

/-- Programs one after the other, as one request. -/
theorem answers_append_iff {q q₁ q₂ : Request} {p₁ p₂ : Program} (hq₁ : q₁.program = .ok p₁)
    (hq₂ : q₂.program = .ok p₂) (hq : q.program = .ok ⟨p₁.statements ++ p₂.statements⟩)
    {a : Except Error (List String)} :
    Answers host i q a k ↔ (∃ err, Answers host i q₁ (.error err) k ∧ a = .error err)
      ∨ ∃ lines j a', Answers host i q₁ (.ok lines) j ∧ Answers host j q₂ a' k
        ∧ a = a'.map (lines ++ ·) := by
  simp only [answers_iff_of_ok hq, answers_iff_of_ok hq₁, answers_iff_of_ok hq₂,
    executes_append_iff]
  constructor
  · rintro ⟨r, ⟨err, h, rfl⟩ | ⟨lines, u, r, h₁, h₂, rfl⟩, rfl, hroot⟩
    · exact .inl ⟨.runtime err, ⟨.error err, h, rfl, hroot⟩, rfl⟩
    · refine .inr ⟨lines, ⟨u, i.root⟩, r.mapError .runtime, ⟨.ok lines, h₁, rfl, rfl⟩,
        ⟨r, h₂, rfl, hroot⟩, ?_⟩
      cases r <;> rfl
  · rintro (⟨err, ⟨r, h, hr, hroot⟩, rfl⟩ | ⟨lines, j, a', ⟨r, h₁, hr, hroot⟩, h₂, rfl⟩)
    · cases r with
      | ok lines => nomatch hr
      | error err' =>
        cases hr
        exact ⟨.error err', .inl ⟨err', h, rfl⟩, rfl, hroot⟩
    · obtain ⟨r', h₂, rfl, hroot'⟩ := h₂
      cases r with
      | error err => nomatch hr
      | ok lines' =>
        cases hr
        rw [hroot] at h₂ hroot'
        refine ⟨_, .inr ⟨lines, j.store, r', h₁, h₂, rfl⟩, ?_, hroot'⟩
        cases r' <;> rfl

/-- Two sources that are programs, with a line break between them, are the program of the statements
of both. To run them so is to run the first and then, if it succeeds, the second: the interpreter
that is left is the same, the lines are those of the first and then those of the second, and an
error is that of the first one that fails. -/
theorem run_append_newline {source source' : String} {p p' : Program}
    (hread : Reader.readProgram source = .ok p) (hread' : Reader.readProgram source' = .ok p') :
    Reader.readProgram (source ++ "\n" ++ source') = .ok ⟨p.statements ++ p'.statements⟩
    ∧ ∀ (host : Host) (i k : Interpreter) (a : Except Error (List String)),
      Answers host i (.run (source ++ "\n" ++ source')) a k ↔
        (∃ err, Answers host i (.run source) (.error err) k ∧ a = .error err)
        ∨ ∃ lines j a', Answers host i (.run source) (.ok lines) j
          ∧ Answers host j (.run source') a' k ∧ a = a'.map (lines ++ ·) := by
  have hboth := Reader.readProgram_append_newline hread hread'
  refine ⟨hboth, fun host i k a => ?_⟩
  have hq : (Request.run source).program = .ok p := hread
  have hq' : (Request.run source').program = .ok p' := hread'
  exact answers_append_iff (q := .run (source ++ "\n" ++ source')) hq hq' hboth

/-- The first source ends in a comment. -/
theorem run_append_newline_comment :
    Reader.readProgram "(define x :a) ; x\n(print x)"
      = .ok ⟨[.define "x" (.keyword "a"), .print (.var "x")]⟩
    ∧ ∃ k, Answers .echo .standard (.run "(define x :a) ; x\n(print x)") (.ok [":a"]) k := by
  have hread : Reader.readProgram "(define x :a) ; x" = .ok ⟨[.define "x" (.keyword "a")]⟩ := by cbv
  have hread' : Reader.readProgram "(print x)" = .ok ⟨[.print (.var "x")]⟩ := by cbv
  let t := Interpreter.standard.store.assign ⟨0⟩ "x" (.keyword "a")
  have hprint : (executeAll .echo 1 ⟨0⟩ [.print (.var "x")] t).ending?.map (·.1)
      = some (.ok [":a"]) := by decide +kernel
  obtain ⟨⟨_, u⟩, hprint, rfl⟩ := Option.map_eq_some_iff.1 hprint
  have hfirst : Answers .echo .standard (.run "(define x :a) ; x") (.ok []) ⟨t, ⟨0⟩⟩ :=
    (answers_iff_of_ok (q := .run _) hread).2 ⟨.ok [], ⟨1, rfl⟩, rfl, rfl⟩
  have hsecond : Answers .echo ⟨t, ⟨0⟩⟩ (.run "(print x)") (.ok [":a"]) ⟨u, ⟨0⟩⟩ :=
    (answers_iff_of_ok (q := .run _) hread').2 ⟨.ok [":a"], ⟨1, hprint⟩, rfl, rfl⟩
  obtain ⟨hboth, hrun⟩ := run_append_newline hread hread'
  exact ⟨hboth, ⟨u, ⟨0⟩⟩, (hrun _ _ _ _).2 (.inr ⟨[], _, .ok [":a"], hfirst, hsecond, rfl⟩)⟩

end ObjectLisp
