import Scriptlet.Proofs.Switching

/-
  Starts of telemetry that do not happen.

  A start writes the name that it is given into the variables of the process before it looks for an
  endpoint and for the configuration. If it then gives up, the name stays behind, and every later start goes
  by it. Nothing else is left of a start that does not happen.

  What is proved:
    1. `Setup.environ_start_of_settled`, `Setup.start_of_not_gives`, `Setup.start_of_gives` — what a start
       does, by whether a service is named or telemetry is switched off, and by whether a name is given.
    2. `Setup.after_cases` — what any starts leave of the variables.
    3. `Setup.start_isQuiet_iff` — when a start that does not happen changes nothing, whatever starts came
       before it.
-/

namespace Scriptlet

/-! ## Variables that are set -/

namespace Environ

variable {name other value : Text}

theorem set_cons (rest : Environ) (first old : Text) :
    Environ.set ((first, old) :: rest) name value =
      if first = name then (name, value) :: rest else (first, old) :: Environ.set rest name value := by
  rw [set]
  by_cases h : first = name <;> simp [h]

theorem get?_cons (rest : Environ) (first old : Text) :
    Environ.get? ((first, old) :: rest) name = if name = first then some old else rest.get? name := by
  rw [get?, List.lookup_cons]
  by_cases h : name = first
  · rw [if_pos h, beq_iff_eq.mpr h]
  · rw [if_neg h, beq_eq_false_iff_ne.mpr h]
    rfl

theorem get?_set_self (env : Environ) : (env.set name value).get? name = some value := by
  induction env with
  | nil => exact (get?_cons [] name value).trans (if_pos rfl)
  | cons entry rest ih =>
    rw [set_cons]
    split
    · rw [get?_cons, if_pos rfl]
    · rename_i hfirst
      rw [get?_cons, if_neg (Ne.symm hfirst), ih]

theorem get?_set_of_ne (env : Environ) (h : other ≠ name) :
    (env.set name value).get? other = env.get? other := by
  induction env with
  | nil => exact (get?_cons [] name value).trans (if_neg h)
  | cons entry rest ih =>
    rw [set_cons]
    split
    · rename_i hfirst
      rw [get?_cons, if_neg h, get?_cons, if_neg (hfirst ▸ h)]
    · rw [get?_cons, get?_cons, ih]

/-- Setting a variable changes nothing about those that another test picks out. -/
theorem filter_set {keeps : Text × Text → Bool} (hname : ∀ old, keeps (name, old) = false)
    (env : Environ) : (env.set name value).filter keeps = env.filter keeps := by
  induction env with
  | nil => exact List.filter_cons_of_neg (ne_true_of_eq_false (hname value))
  | cons entry rest ih =>
    rw [set_cons]
    split
    · rename_i hfirst
      subst hfirst
      rw [List.filter_cons_of_neg (ne_true_of_eq_false (hname value)),
        List.filter_cons_of_neg (ne_true_of_eq_false (hname entry.2))]
    · rw [List.filter_cons, List.filter_cons, ih]

theorem find?_set_of_ne (reader : Setting.Reader) (env : Environ)
    (h : name.toLower ≠ other.toLower) :
    reader.find? (env.set name value) other = reader.find? env other := by
  have hother : ∀ old : Text,
      (fun entry : Text × Text => entry.1.toLower == other.toLower) (name, old) = false :=
    fun _ => beq_eq_false_iff_ne.mpr h
  rw [← reader.find?_filter (env.set name value), filter_set hother, reader.find?_filter]

end Environ

namespace Telemetry

variable {reader : Setting.Reader} {env : Environ} {service : Option Text}

theorem valueOf_set_self (env : Environ) (name value : Text) : valueOf (env.set name value) name = value := by
  rw [valueOf, Environ.get?_set_self]
  rfl

theorem valueOf_set_of_ne {name other : Text} (value : Text) (h : other ≠ name) :
    valueOf (env.set name value) other = valueOf env other := by
  rw [valueOf, Environ.get?_set_of_ne env h]
  rfl

/-- The variables decide by themselves about naming the service: it is named, or nothing is started. -/
def IsSettled (env : Environ) : Prop :=
  isDisabled env = true ∨ (valueOf env serviceVariable).isEmpty = false

/-- Telemetry can be started once the service is named: the endpoint is named, and the switch of the
configuration can be read. -/
def CanStart (reader : Setting.Reader) (env : Environ) : Prop :=
  (valueOf env endpointVariable).isEmpty = false ∧ ∃ b, switchOf reader env = .ok b

/-- A name for the service is given, and a variable can have it. -/
def gives (service : Option Text) : Bool :=
  service.any fun name => !name.isEmpty && Environ.admits name

theorem exists_name_of_gives (h : gives service = true) : ∃ name, service = some name := by
  cases service with
  | none => cases h
  | some name => exact ⟨name, rfl⟩

theorem ne_empty_of_gives {name : Text} (h : gives (some name) = true) : name.isEmpty = false := by
  have hboth : name.isEmpty = false ∧ Environ.admits name = true := by simpa [gives] using h
  exact hboth.1

namespace Setup

/-- The levels of the handlers of logs that telemetry has added. -/
def handlers (p : Setup) : List LogLevel := (p.started.map Started.level).toList

/-- The process after some starts, whether they took place or not. -/
def after (reader : Setting.Reader) (p : Setup) (services : List (Option Text)) : Setup :=
  services.foldl (fun p service => (p.startBy reader service).2) p

/-- If the start does not happen, it changes nothing: the variables, whether telemetry is on and the
handlers of logs are as before. -/
def IsQuiet (reader : Setting.Reader) (p : Setup) (service : Option Text) : Prop :=
  (p.startBy reader service).1 = false →
    (p.startBy reader service).2.environ = p.environ ∧
      (p.startBy reader service).2.isEnabled = p.isEnabled ∧
      (p.startBy reader service).2.handlers = p.handlers

/-! ## One start -/

variable {p : Setup} {name : Text}

theorem nameService?_of_named (h : (valueOf p.environ serviceVariable).isEmpty = false) :
    p.nameService? service = some p := by
  cases service with
  | none => rfl
  | some name => simp [nameService?, h]

theorem nameService?_of_not_gives (hgives : gives service = false) :
    p.nameService? service = some p ∨ p.nameService? service = none := by
  cases service with
  | none => exact .inl rfl
  | some name =>
    unfold nameService?
    by_cases hempty : name.isEmpty || !(valueOf p.environ serviceVariable).isEmpty
    · exact .inl (by simp only [hempty, if_true])
    · have hadmits : Environ.admits name = false := by
        have hname : name.isEmpty = false := by simp_all
        simpa [gives, hname] using hgives
      exact .inr (by simp [hempty, hadmits])

theorem nameService?_of_gives (h : (valueOf p.environ serviceVariable).isEmpty = true)
    (hgives : gives (some name) = true) :
    p.nameService? (some name) = some { p with environ := p.environ.set serviceVariable name } := by
  obtain ⟨hname, hadmits⟩ : name.isEmpty = false ∧ Environ.admits name = true := by
    simpa [gives] using hgives
  simp [nameService?, h, hname, hadmits]

/-- A start does nothing, or it names the service as far as it is to be named and then takes place or
not. -/
theorem start_cases (reader : Setting.Reader) (p : Setup) (service : Option Text) :
    p.startBy reader service = (false, p) ∨
      isDisabled p.environ = false ∧ ∃ q, p.nameService? service = some q ∧
        (p.startBy reader service = (false, q) ∨
          ∃ t, p.startBy reader service = (true, { q with started := some t })) := by
  unfold startBy
  by_cases hoff : p.isEnabled || isDisabled p.environ
  · exact .inl (if_pos hoff)
  · rw [if_neg hoff]
    have hdisabled : isDisabled p.environ = false := by simp_all
    cases hname : p.nameService? service with
    | none => exact .inl rfl
    | some q =>
      refine .inr ⟨hdisabled, q, rfl, ?_⟩
      dsimp only
      split
      · exact .inl rfl
      · cases Config.readBy reader q.environ with
        | error issues => exact .inl rfl
        | ok config => exact .inr ⟨_, rfl⟩

theorem started_nameService? {q : Setup} (h : p.nameService? service = some q) :
    q.started = p.started := by
  unfold nameService? at h
  split at h
  · cases h
    rfl
  · split at h
    · cases h
      rfl
    · split at h
      · cases h
        rfl
      · cases h

/-- A start that does not happen leaves telemetry and its handlers as they are. -/
theorem telemetry_of_not_start (h : (p.startBy reader service).1 = false) :
    (p.startBy reader service).2.isEnabled = p.isEnabled ∧
      (p.startBy reader service).2.handlers = p.handlers := by
  have hstarted : (p.startBy reader service).2.started = p.started := by
    obtain hnothing | ⟨-, q, hname, hfails | ⟨t, hstarts⟩⟩ := p.start_cases reader service
    · rw [hnothing]
    · rw [hfails]
      exact started_nameService? hname
    · rw [hstarts] at h
      cases h
  exact ⟨by rw [isEnabled, isEnabled, hstarted], by rw [handlers, handlers, hstarted]⟩

/-- Where the service is named already, or nothing is to be started, a start sets no variable. -/
theorem environ_start_of_settled (h : IsSettled p.environ) :
    (p.startBy reader service).2.environ = p.environ := by
  obtain hnothing | ⟨hdisabled, q, hname, hends⟩ := p.start_cases reader service
  · rw [hnothing]
  · obtain hoff | hnamed := h
    · rw [hoff] at hdisabled
      cases hdisabled
    · rw [nameService?_of_named hnamed] at hname
      cases hname
      obtain hfails | ⟨t, hstarts⟩ := hends
      · rw [hfails]
      · rw [hstarts]

theorem valueOf_of_not_settled (h : ¬ IsSettled env) :
    isDisabled env = false ∧ (valueOf env serviceVariable).isEmpty = true := by
  unfold IsSettled at h
  simpa using h

/-- Without a name for the service nothing happens. -/
theorem start_of_not_gives (h : ¬ IsSettled p.environ) (hgives : gives service = false) :
    p.startBy reader service = (false, p) := by
  obtain ⟨-, hempty⟩ := valueOf_of_not_settled h
  have hnamed : isNamed p.environ = false := by simp [isNamed, hempty]
  unfold startBy
  split
  · rfl
  · obtain hname | hname := nameService?_of_not_gives (p := p) hgives
    · simp [hname, hnamed]
    · simp [hname]

theorem serviceVariable_ne : endpointVariable ≠ serviceVariable ∧ switchVariable ≠ serviceVariable ∧
    serviceVariable.toLower ≠ switchSetting.toLower := by
  decide

/-- A name that is given is set, and telemetry is started with it if it can be started. -/
theorem start_of_gives (h : ¬ IsSettled env) (hgives : gives (some name) = true) :
    ((⟨env, none⟩ : Setup).startBy reader (some name)).2.environ = env.set serviceVariable name ∧
      (((⟨env, none⟩ : Setup).startBy reader (some name)).1 = true ↔ CanStart reader env) := by
  obtain ⟨hdisabled, hempty⟩ := valueOf_of_not_settled h
  obtain ⟨hendpoint, -, hswitch⟩ := serviceVariable_ne
  have hname := ne_empty_of_gives hgives
  have hset := nameService?_of_gives (p := ⟨env, none⟩) hempty hgives
  have hnamed : isNamed (env.set serviceVariable name) = !(valueOf env endpointVariable).isEmpty := by
    rw [isNamed, valueOf_set_self, valueOf_set_of_ne name hendpoint, hname]
    rfl
  have hreads : switchOf reader (env.set serviceVariable name) = switchOf reader env := by
    rw [switchOf, Environ.find?_set_of_ne reader env hswitch]
    rfl
  unfold startBy CanStart
  simp only [isEnabled, Option.isSome_none, hdisabled, hset, hnamed, Bool.or_self, Bool.false_eq_true,
    if_false]
  cases hend : (valueOf env endpointVariable).isEmpty with
  | true => simp
  | false =>
    obtain ⟨build, -, hread⟩ := Config.readBy_eq reader (hnamed.trans (by rw [hend]; rfl))
    rw [hread, hreads]
    cases switchOf reader env <;> simp

/-! ## Starts one after the other -/

/-- Settled variables stay as they are. -/
theorem environ_after_of_settled (services : List (Option Text)) :
    ∀ {p : Setup}, IsSettled p.environ → (p.after reader services).environ = p.environ := by
  induction services with
  | nil => exact fun _ => rfl
  | cons service rest ih =>
    intro p h
    have hstart : (p.startBy reader service).2.environ = p.environ := environ_start_of_settled h
    exact (ih (hstart.symm ▸ h)).trans hstart

theorem isSettled_set (env : Environ) (hname : name.isEmpty = false) :
    IsSettled (env.set serviceVariable name) := by
  refine .inr ?_
  rw [valueOf_set_self, hname]

/-- The variables are settled and stay as they are; or no name has been given and nothing has happened; or
the first name has settled them. -/
theorem after_cases (reader : Setting.Reader) (env : Environ) (earlier : List (Option Text)) :
    let p := (⟨env, none⟩ : Setup).after reader earlier
    IsSettled env ∧ p.environ = env ∨
      ¬ IsSettled env ∧ earlier.any gives = false ∧ p = ⟨env, none⟩ ∨
      ¬ IsSettled env ∧ earlier.any gives = true ∧ IsSettled p.environ := by
  by_cases h : IsSettled env
  · exact .inl ⟨h, environ_after_of_settled (p := ⟨env, none⟩) earlier h⟩
  · refine .inr ?_
    induction earlier with
    | nil => exact .inl ⟨h, rfl, rfl⟩
    | cons service rest ih =>
      cases hgives : gives service with
      | false =>
        -- The start does nothing, and the others begin where it began.
        have hsame : (⟨env, none⟩ : Setup).after reader (service :: rest) =
            (⟨env, none⟩ : Setup).after reader rest :=
          congrArg (fun r => after reader r.2 rest) (start_of_not_gives (p := ⟨env, none⟩) h hgives)
        rw [hsame, List.any_cons, hgives, Bool.false_or]
        exact ih
      | true =>
        obtain ⟨name, rfl⟩ := exists_name_of_gives hgives
        have hname := ne_empty_of_gives hgives
        obtain ⟨hset, -⟩ := start_of_gives h hgives
        have hsettled : IsSettled ((⟨env, none⟩ : Setup).startBy reader (some name)).2.environ :=
          hset ▸ isSettled_set env hname
        refine .inr ⟨h, by rw [List.any_cons, hgives, Bool.true_or], ?_⟩
        show IsSettled (after reader ((⟨env, none⟩ : Setup).startBy reader (some name)).2 rest).environ
        rw [environ_after_of_settled rest hsettled]
        exact hsettled

/-- Setting a variable that is not set, or set to nothing, changes the environment. -/
theorem set_ne (hempty : (valueOf env serviceVariable).isEmpty = true) (hname : name.isEmpty = false) :
    env.set serviceVariable name ≠ env := by
  intro heq
  have hvalue := valueOf_set_self env serviceVariable name
  rw [heq] at hvalue
  rw [hvalue, hname] at hempty
  cases hempty

theorem isQuiet_of_environ (h : (p.startBy reader service).2.environ = p.environ) :
    p.IsQuiet reader service :=
  fun hfails => ⟨h, telemetry_of_not_start hfails⟩

/-- Whatever starts came before: a start that does not happen leaves telemetry and its handlers as they
are. It leaves the variables as they are too exactly if telemetry is switched off, the service was
named from the beginning or by an earlier start, no name is given that a variable can have, or the start
would take place with the name. -/
theorem start_isQuiet_iff (reader : Setting.Reader) (env : Environ) (earlier : List (Option Text))
    (service : Option Text) :
    let p := (⟨env, none⟩ : Setup).after reader earlier
    ((p.startBy reader service).1 = false →
      (p.startBy reader service).2.isEnabled = p.isEnabled ∧
        (p.startBy reader service).2.handlers = p.handlers) ∧
    (p.IsQuiet reader service ↔
      isDisabled env = true ∨ (valueOf env serviceVariable).isEmpty = false ∨
        earlier.any gives = true ∨ gives service = false ∨ CanStart reader env) := by
  intro p
  refine ⟨telemetry_of_not_start, ?_⟩
  obtain ⟨hsettled, hsame⟩ | ⟨hunsettled, hnone, hp⟩ | ⟨-, hgiven, hsettled⟩ :=
    after_cases reader env earlier
  · -- Telemetry is switched off, or the service has been named from the beginning.
    have hquiet : p.IsQuiet reader service :=
      isQuiet_of_environ (environ_start_of_settled (hsame.symm ▸ hsettled))
    exact iff_of_true hquiet (hsettled.imp_right .inl)
  · -- Nothing has given a name yet, so that this start is as good as the first one.
    obtain ⟨hdisabled, hempty⟩ := valueOf_of_not_settled hunsettled
    rw [hdisabled, hempty, hnone]
    simp only [Bool.false_eq_true, Bool.true_eq_false, false_or]
    replace hp : p = ⟨env, none⟩ := hp
    rw [hp]
    cases hgives : gives service with
    | false =>
      have hnothing : (⟨env, none⟩ : Setup).startBy reader service = (false, ⟨env, none⟩) :=
        start_of_not_gives hunsettled hgives
      exact iff_of_true (isQuiet_of_environ (by rw [hnothing])) (.inl rfl)
    | true =>
      obtain ⟨name, rfl⟩ := exists_name_of_gives hgives
      have hname := ne_empty_of_gives hgives
      obtain ⟨hset, hstarts⟩ := start_of_gives hunsettled hgives
      rw [Bool.true_eq_false, false_or, ← hstarts]
      constructor
      · intro hquiet
        cases hstart : ((⟨env, none⟩ : Setup).startBy reader (some name)).1 with
        | true => rfl
        | false => exact absurd (hset.symm.trans (hquiet hstart).1) (set_ne hempty hname)
      · intro hstart hfails
        rw [hstart] at hfails
        cases hfails
  · -- An earlier start has given the name.
    have hquiet : p.IsQuiet reader service := isQuiet_of_environ (environ_start_of_settled hsettled)
    exact iff_of_true hquiet (.inr (.inr (.inl hgiven)))

/-- In a process without variables, a start with a name for the service does not happen for want of an
endpoint, and the name stays behind. -/
theorem not_start_isQuiet : ¬ ∀ (env : Environ) (earlier : List (Option Text)) (service : Option Text),
    ((⟨env, none⟩ : Setup).after .standard earlier).IsQuiet .standard service := by
  intro hclaim
  have hfails : ((⟨[], none⟩ : Setup).startBy .standard (some "calculator")).1 = false := by decide
  have hset : ((⟨[], none⟩ : Setup).startBy .standard (some "calculator")).2.environ =
      [(serviceVariable, Text.ofString "calculator")] := by decide
  have hsame := (hclaim [] [] (some "calculator") hfails).1
  cases hset.symm.trans hsame

end Setup

end Telemetry

end Scriptlet
