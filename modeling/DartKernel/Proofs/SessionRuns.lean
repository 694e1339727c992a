import DartKernel.Session.Run

namespace DartKernel.SessionBuilder

variable {b : SessionBuilder}

/-- The first string table that calls bring. -/
def firstTable? (calls : List BuilderCall) : Option StringTable :=
  calls.findSome? BuilderCall.strings?

/-- The last canonical names that calls bring. -/
def lastNames? (calls : List BuilderCall) : Option CanonicalNames :=
  calls.reverse.findSome? BuilderCall.names?

theorem firstTable?_cons (call : BuilderCall) (calls : List BuilderCall) :
    firstTable? (call :: calls) = call.strings?.or (firstTable? calls) := by
  rw [firstTable?, List.findSome?_cons]
  cases call.strings? <;> rfl

theorem lastNames?_cons (call : BuilderCall) (calls : List BuilderCall) :
    lastNames? (call :: calls) = (lastNames? calls).or call.names? := by
  rw [lastNames?, List.reverse_cons, List.findSome?_append, List.findSome?_singleton]
  rfl

/-- In place a table is attached as it is to a copy, and a refusal leaves the builder as it was. -/
theorem perform_attachStrings (b : SessionBuilder) (strings : StringTable) :
    (BuilderCall.attachStrings strings).perform b =
      match b.attachStrings strings with
      | .ok b' => .ok () b'
      | .error fault => .error fault b := by
  obtain ⟨version, options, strings?, names⟩ := b
  cases strings? <;> rfl

theorem attachStrings_of_none {strings : StringTable} (h : b.strings? = none) :
    b.attachStrings strings = .ok { b with strings? := some strings } := by
  rw [attachStrings, h]

theorem attachStrings_of_some {attached strings : StringTable} (h : b.strings? = some attached) :
    b.attachStrings strings = .error .stringTableAttached := by
  rw [attachStrings, h]

/-- What a call does: a table is taken over only where there is none, names always. -/
theorem step_eq (b : SessionBuilder) (call : BuilderCall) : b.step call =
    { b with
      strings? := b.strings?.or call.strings?
      names := call.names?.getD b.names } := by
  cases call with
  | attachStrings strings =>
    rw [step, perform_attachStrings]
    cases h : b.strings? with
    | none =>
      rw [attachStrings_of_none h]
      rfl
    | some attached =>
      rw [attachStrings_of_some h, Option.some_or, ← h]
      rfl
  | setNames names =>
    rw [BuilderCall.strings?, Option.or_none]
    rfl
  | hasStrings =>
    rw [BuilderCall.strings?, Option.or_none]
    rfl

/-- The induction is on the calls: the first of them settles the table if it brings one, and its
names last until others come. -/
theorem run_eq (b : SessionBuilder) (calls : List BuilderCall) : b.run calls =
    { b with
      strings? := b.strings?.or (firstTable? calls)
      names := (lastNames? calls).getD b.names } := by
  induction calls generalizing b with
  | nil =>
    rw [firstTable?, List.findSome?_nil, Option.or_none]
    rfl
  | cons call calls ih =>
    have hrun : b.run (call :: calls) = (b.step call).run calls := rfl
    rw [hrun, ih, step_eq, firstTable?_cons, lastNames?_cons, Option.or_assoc, Option.getD_or]

/-- A builder that has a table keeps it. -/
theorem strings?_run {strings : StringTable} (h : b.strings? = some strings)
    (calls : List BuilderCall) : (b.run calls).strings? = some strings := by
  rw [run_eq, h, Option.some_or]

theorem build_eq_ok_iff {session : Session} : b.build = .ok session ↔
    b.strings? = some session.strings ∧ b.names = session.names ∧ b.options = session.options ∧
      b.version = session.version := by
  obtain ⟨version, options, strings?, names⟩ := b
  obtain ⟨strings', names', options', version'⟩ := session
  cases strings? with
  | none => simp [build]
  | some strings => simp [build]

/-- Whatever is asked of a builder in whatever order, it takes over the first string table that
comes, refuses every other one without a change, and knows whether it has one. The session holds
this table and the names that came last, and there is one exactly when a table came. No calls that
follow change what its nodes are read by. -/
theorem first_table_kept (version : FormatVersion) (options : DecodeOptions)
    (calls : List BuilderCall) :
    let b : SessionBuilder := run { version, options } calls
    (∀ strings, (BuilderCall.attachStrings strings).perform b =
      if firstTable? calls = none then .ok () { b with strings? := some strings }
      else .error .stringTableAttached b) ∧
    (∀ names, (BuilderCall.setNames names).perform b = .ok () { b with names }) ∧
    BuilderCall.hasStrings.perform b = .ok (firstTable? calls).isSome b ∧
    (∀ session, b.build = .ok session ↔ firstTable? calls = some session.strings ∧
      session.names = (lastNames? calls).getD (.ofList []) ∧ session.options = options ∧
      session.version = version) ∧
    (firstTable? calls = none → b.build = .error (.format .noStringTable)) ∧
    ∀ session later, b.build = .ok session → ∃ session', (b.run later).build = .ok session' ∧
      session'.strings = session.strings ∧ session'.conventions = session.conventions := by
  intro b
  have hb : b = ⟨version, options, firstTable? calls, (lastNames? calls).getD (.ofList [])⟩ := by
    rw [show b = _ from run_eq _ _, Option.none_or]
    rfl
  have hstrings : b.strings? = firstTable? calls := congrArg SessionBuilder.strings? hb
  refine ⟨?_, fun names => rfl, ?_, ?_, ?_, ?_⟩
  · intro strings
    rw [perform_attachStrings]
    cases h : firstTable? calls with
    | none => rw [attachStrings_of_none (hstrings.trans h), if_pos rfl]
    | some attached => rw [attachStrings_of_some (hstrings.trans h), if_neg (Option.some_ne_none _)]
  · rw [← hstrings]
    rfl
  · intro session
    rw [build_eq_ok_iff, hb]
    simp only [eq_comm]
  · intro h
    rw [hb, h]
    rfl
  · intro session later h
    obtain ⟨htable, -, hoptions, hversion⟩ := build_eq_ok_iff.mp h
    have hkept := strings?_run htable later
    refine ⟨⟨session.strings, (b.run later).names, session.options, session.version⟩, ?_, rfl, rfl⟩
    refine build_eq_ok_iff.mpr ⟨hkept, rfl, ?_, ?_⟩
    · rw [run_eq]
      exact hoptions
    · rw [run_eq]
      exact hversion

/-- Names, a table, another table and other names, and then a third table. -/
theorem first_table_kept_thrice :
    let calls := [.setNames (.ofList [⟨⟨0⟩, ⟨1⟩⟩]), .attachStrings (.ofList ["a"]),
      .attachStrings (.ofList ["b", "_c"]), .setNames (.ofList [])]
    let b : SessionBuilder := run { version := ⟨17⟩, options := {} } calls
    let session : Session := ⟨.ofList ["a"], .ofList [], {}, ⟨17⟩⟩
    b.build = .ok session ∧
    (BuilderCall.attachStrings (.ofList [])).perform b = .error .stringTableAttached b ∧
    ∃ session', (b.run [.attachStrings (.ofList []), .setNames (.ofList [⟨⟨0⟩, ⟨1⟩⟩])]).build =
        .ok session' ∧ session'.strings = session.strings ∧
      session'.conventions = session.conventions := by
  intro calls b session
  obtain ⟨hattach, -, -, hbuild, -, hlater⟩ := first_table_kept ⟨17⟩ {} calls
  have hsession : b.build = .ok session := (hbuild session).mpr ⟨rfl, rfl, rfl, rfl⟩
  exact ⟨hsession, hattach (.ofList []), hlater session _ hsession⟩

end DartKernel.SessionBuilder
