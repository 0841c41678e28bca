import Scriptlet.Proofs.Kinds.Values
import Scriptlet.Telemetry

/-
  The switch of telemetry.

  Three places ask whether telemetry is on: whether it is wanted, what it is configured with, and its
  start. The first and the last know three words that switch it off. The configuration reads the switch
  as settings are read: more words mean the same, some mean the opposite, and every other text is a
  problem. The start gives up on a problem, but it does not ask what the configuration says. Which reader
  of settings there is does not matter.

  What is proved:
    1. `Config.isOn_iff`, `Setup.start_iff` — with a service and an endpoint named, the configuration is
       decided by what its switch reads, and the start by that and by the three words.
    2. `switches_agree_iff` — the three agree exactly if the words that the first place knows stand
       where the setting is not read as off, and nowhere else.
    3. `not_switches_agree` — on the word `on` they do not agree.
-/

namespace Scriptlet

/-! ## Variables in letters of any case -/

namespace Environ

variable {env : Environ} {name : Text}

/-- The variable is set at most once, and under no name that differs in the case of letters. -/
structure SpellsOnce (env : Environ) (name : Text) : Prop where
  distinct : (env.map Prod.fst).Nodup
  spelled : ∀ entry ∈ env, entry.1.toLower = name.toLower → entry.1 = name

/-- Then the variable has the value that any entry of its name holds. -/
theorem SpellsOnce.get?_eq {entry : Text × Text} (h : env.SpellsOnce name) (hentry : entry ∈ env)
    (hname : entry.1.toLower = name.toLower) : env.get? name = some entry.2 := by
  obtain rfl : entry.1 = name := h.spelled entry hentry hname
  obtain ⟨before, behind, rfl⟩ := List.append_of_mem hentry
  refine List.lookup_eq_some_iff.mpr ⟨before, behind, rfl, fun other hother => ?_⟩
  have hdistinct := h.distinct
  rw [List.map_append, List.nodup_append] at hdistinct
  rw [bne_iff_ne]
  exact (hdistinct.2.2 _ (List.mem_map_of_mem hother) _ (by simp)).symm

end Environ

namespace Setting

/-- A text whose ASCII letters are those of an ASCII word in either case is that word in lower case. -/
theorem toLower_of_asciiLower {t w : Text} (hw : ∀ c ∈ w, c.val < 128) (h : asciiLower t = w) :
    t.toLower = w := by
  subst h
  refine List.map_congr_left fun c hc => ?_
  have hlow := hw _ (List.mem_map_of_mem hc)
  by_cases hc128 : c.val < 128
  · rw [if_pos hc128]
  · rw [if_neg hc128] at hlow
    exact absurd hlow hc128

theorem ascii_of_mem_offWords : ∀ w ∈ offWords, ∀ c ∈ w, c.val < 128 := by decide

namespace Reader

variable {reader : Reader} {env : Environ} {name variableName : Text}

/-- A variable that is set and not empty is found whatever the case of its letters. -/
theorem exists_find?_of_named (hname : variableName.toLower = name.toLower)
    (h : (Telemetry.valueOf env variableName).isEmpty = false) : ∃ t, reader.find? env name = some t := by
  unfold Telemetry.valueOf at h
  cases hget : env.get? variableName with
  | none =>
    rw [hget] at h
    cases h
  | some value =>
    have hentry : (variableName, value) ∈ env := mem_of_lookup hget
    exact reader.exists_find? hentry hname

/-- Where the variable of a setting is spelled in one way only, the setting is what that variable says. -/
theorem find?_eq_get? (hname : variableName.toLower = name.toLower) (h : env.SpellsOnce variableName) :
    reader.find? env name = env.get? variableName := by
  cases hfind : reader.find? env name with
  | some t =>
    obtain ⟨entry, hentry, hlower, rfl⟩ := reader.mem_of_find? hfind
    exact (h.get?_eq hentry (hlower.trans hname.symm)).symm
  | none =>
    cases hget : env.get? variableName with
    | none => rfl
    | some value =>
      have hentry : (variableName, value) ∈ env := mem_of_lookup hget
      obtain ⟨t, ht⟩ := reader.exists_find? hentry hname
      rw [hfind] at ht
      cases ht

end Reader

end Setting

namespace Telemetry

variable {reader : Setting.Reader} {env : Environ}

/-! ## The configuration -/

/-- What the switch of the configuration reads; if it is not set, nothing is switched off. -/
def switchOf (reader : Setting.Reader) (env : Environ) : Except Problem Bool :=
  match reader.find? env switchSetting with
  | none => .ok false
  | some t => reader.switch (.text t)

theorem toLower_settings : serviceVariable.toLower = Text.toLower "otel_service_name" ∧
    endpointVariable.toLower = Text.toLower "otel_exporter_otlp_endpoint" ∧
    switchVariable.toLower = switchSetting.toLower := by
  decide

namespace Config

/-- Where the configuration is read from: the variables under the names of the settings. -/
def source (reader : Setting.Reader) (env : Environ) : Setting.Source := ⟨[], reader.find? env⟩

theorem find?_source (name : Text) :
    (source reader env).find? name = (reader.find? env name).map Json.text := rfl

theorem required_source {name value : Text} (hvalue : reader.find? env name = some value) :
    (source reader env).required name = ⟨value, []⟩ := by
  unfold Setting.Source.required
  rw [find?_source, hvalue]
  rfl

theorem optional_text_source (reader : Setting.Reader) (env : Environ) (name : Text) :
    ∃ t, (source reader env).optional name Setting.text [] = ⟨t, []⟩ := by
  unfold Setting.Source.optional
  rw [find?_source]
  cases reader.find? env name <;> exact ⟨_, rfl⟩

theorem optional_switch_source : (source reader env).optional switchSetting reader.switch false =
    match switchOf reader env with
    | .ok b => ⟨b, []⟩
    | .error problem => ⟨false, [⟨switchSetting, problem⟩]⟩ := by
  unfold Setting.Source.optional switchOf
  rw [find?_source]
  cases reader.find? env switchSetting with
  | none => rfl
  | some t =>
    have hread : ((some t).map Json.text).map reader.switch = some (reader.switch (.text t)) := rfl
    rw [hread]
    dsimp only
    cases reader.switch (.text t) <;> rfl

/-- The configuration can be read, and telemetry is on in it. -/
def IsOn (reader : Setting.Reader) (env : Environ) : Prop :=
  ∃ config, readBy reader env = .ok config ∧ config.isEnabled = true

/-- With a service and an endpoint named, only the switch can be a problem. -/
theorem readBy_eq (reader : Setting.Reader) (hnamed : isNamed env = true) : ∃ build : Bool → Config,
    (∀ b, (build b).isEnabled = !b) ∧
      readBy reader env = match switchOf reader env with
        | .ok b => .ok (build b)
        | .error problem => .error [⟨switchSetting, problem⟩] := by
  obtain ⟨hservice, hendpoint⟩ : (valueOf env serviceVariable).isEmpty = false ∧
      (valueOf env endpointVariable).isEmpty = false := by
    simpa [isNamed] using hnamed
  obtain ⟨service, hservice⟩ :=
    reader.exists_find?_of_named toLower_settings.1 hservice
  obtain ⟨endpoint, hendpoint⟩ :=
    reader.exists_find?_of_named toLower_settings.2.1 hendpoint
  obtain ⟨attributes, hattributes⟩ := optional_text_source reader env "otel_resource_attributes"
  refine ⟨fun b => ⟨service, endpoint, b, attributes⟩, fun _ => rfl, ?_⟩
  show (source reader env).finish [] (Config.mk <$> (source reader env).required "otel_service_name"
    <*> (source reader env).required "otel_exporter_otlp_endpoint"
    <*> (source reader env).optional switchSetting reader.switch false
    <*> (source reader env).optional "otel_resource_attributes" Setting.text []) = _
  rw [required_source hservice, required_source hendpoint, optional_switch_source, hattributes]
  cases switchOf reader env <;> rfl

/-- The configuration is on exactly if its switch is read as off. -/
theorem isOn_iff (hnamed : isNamed env = true) : IsOn reader env ↔ switchOf reader env = .ok false := by
  obtain ⟨build, hbuild, hread⟩ := readBy_eq reader hnamed
  unfold IsOn
  rw [hread]
  cases switchOf reader env with
  | error problem => simp
  | ok b => cases b <;> simp [hbuild]

end Config

/-! ## The start -/

theorem isWanted_iff (hnamed : isNamed env = true) : isWanted env = true ↔ isDisabled env = false := by
  simp [isWanted, hnamed]

/-- A first start takes place exactly if none of the three words stands against it and the switch of
the configuration can be read. -/
theorem Setup.start_iff (hnamed : isNamed env = true) (service : Option Text) :
    (startBy reader ⟨env, none⟩ service).1 = true ↔
      isDisabled env = false ∧ ∃ b, switchOf reader env = .ok b := by
  have hname : (⟨env, none⟩ : Setup).nameService? service = some ⟨env, none⟩ := by
    have hset : (valueOf env serviceVariable).isEmpty = false := by
      simp only [isNamed, Bool.and_eq_true, Bool.not_eq_true'] at hnamed
      exact hnamed.1
    cases service with
    | none => rfl
    | some name => simp [nameService?, hset]
  obtain ⟨build, -, hread⟩ := Config.readBy_eq reader hnamed
  unfold startBy
  simp only [hname, hnamed, hread, isEnabled, Option.isSome_none, Bool.false_or, Bool.not_true,
    Bool.false_eq_true, if_false]
  cases isDisabled env <;> cases switchOf reader env <;> simp

/-! ## Agreement -/

/-- Telemetry is wanted, on in its configuration, and started by a first start, or none of the three. -/
def SwitchesAgree (reader : Setting.Reader) (env : Environ) (service : Option Text) : Prop :=
  (isWanted env = true ↔ Config.IsOn reader env) ∧
    (isWanted env = true ↔ (Setup.startBy reader ⟨env, none⟩ service).1 = true)

theorem agree_iff_switchOf (hnamed : isNamed env = true) (service : Option Text) :
    SwitchesAgree reader env service ↔ (isDisabled env = false ↔ switchOf reader env = .ok false) := by
  unfold SwitchesAgree
  rw [isWanted_iff hnamed, Config.isOn_iff hnamed, Setup.start_iff hnamed]
  constructor
  · exact And.left
  · intro h
    exact ⟨h, fun hoff => ⟨hoff, false, h.mp hoff⟩, And.left⟩

/-- The words that everything but the configuration knows for telemetry that is switched off. -/
def refusals : List Text := ["true", "1", "yes"]

theorem isDisabled_iff : isDisabled env = true ↔
    ∃ t, env.get? switchVariable = some t ∧ t.toLower ∈ refusals := by
  unfold isDisabled valueOf
  cases env.get? switchVariable with
  | none => exact ⟨fun h => absurd h (by decide), fun ⟨_, h, _⟩ => by cases h⟩
  | some t => simp [refusals]

/-- Whatever the switch is set to, the three agree exactly if the words that switch telemetry off stand
where the setting holds something that is not read as off. Where the variable is spelled in one way only,
they agree exactly if it is not set, or set to one of those words or to a word that is read as off. -/
theorem switches_agree_iff (reader : Setting.Reader) (hnamed : isNamed env = true)
    (service : Option Text) :
    (SwitchesAgree reader env service ↔ (isDisabled env = true ↔
      ∃ t, reader.find? env switchSetting = some t ∧ Setting.asciiLower t ∉ Setting.offWords)) ∧
    (env.SpellsOnce switchVariable → (SwitchesAgree reader env service ↔
      ∀ t, env.get? switchVariable = some t →
        t.toLower ∈ refusals ∨ Setting.asciiLower t ∈ Setting.offWords)) := by
  have hswitch : switchOf reader env = .ok false ↔
      ¬ ∃ t, reader.find? env switchSetting = some t ∧ Setting.asciiLower t ∉ Setting.offWords := by
    unfold switchOf
    cases reader.find? env switchSetting with
    | none => simp
    | some t => simp [reader.switch_eq_ok_false]
  have hagree : SwitchesAgree reader env service ↔ (isDisabled env = true ↔
      ∃ t, reader.find? env switchSetting = some t ∧ Setting.asciiLower t ∉ Setting.offWords) := by
    rw [agree_iff_switchOf hnamed, hswitch, ← Bool.not_eq_true]
    exact Decidable.not_iff_not
  refine ⟨hagree, fun honce => ?_⟩
  rw [hagree, isDisabled_iff, reader.find?_eq_get? toLower_settings.2.2 honce]
  cases env.get? switchVariable with
  | none => simp
  | some t =>
    -- No word is both: a word that is read as off has no letters but those of ASCII.
    have hdisjoint : t.toLower ∈ refusals → Setting.asciiLower t ∉ Setting.offWords := by
      intro hrefused hoff
      have hoffs : ∀ w ∈ Setting.offWords, w ∉ refusals := by decide
      have hlower := Setting.toLower_of_asciiLower (Setting.ascii_of_mem_offWords _ hoff) rfl
      exact hoffs _ hoff (hlower ▸ hrefused)
    simp only [Option.some.injEq, exists_eq_left', forall_eq']
    constructor
    · intro hiff
      by_cases hrefused : t.toLower ∈ refusals
      · exact .inl hrefused
      · exact .inr (Classical.not_not.mp fun hoff => hrefused (hiff.mpr hoff))
    · rintro (hrefused | hoff)
      · exact ⟨hdisjoint, fun _ => hrefused⟩
      · exact ⟨hdisjoint, fun hon => absurd hoff hon⟩

/-- The variables of a process that names a service and an endpoint and sets the switch. -/
def environWith (t : Text) : Environ :=
  [(serviceVariable, "calculator"), (endpointVariable, "http://localhost:4317"), (switchVariable, t)]

theorem switches_agree_iff_true : isNamed (environWith "True") = true ∧
    SwitchesAgree .standard (environWith "True") none := by
  have hnamed : isNamed (environWith "True") = true := by decide
  have honce : (environWith "True").SpellsOnce switchVariable := ⟨by decide, by decide⟩
  refine ⟨hnamed, ((switches_agree_iff .standard hnamed none).2 honce).mpr ?_⟩
  decide

/-- On the word `on`, telemetry is wanted and started, though its configuration says that it is off. -/
theorem not_switches_agree : ¬ ∀ (env : Environ) (service : Option Text),
    isNamed env = true → SwitchesAgree .standard env service := by
  intro hclaim
  have hnamed : isNamed (environWith "on") = true := by decide
  have hwanted : isWanted (environWith "on") = true := by decide
  have hswitch : switchOf .standard (environWith "on") = .ok true := by rfl
  have hon := (Config.isOn_iff hnamed).mp ((hclaim _ none hnamed).1.mp hwanted)
  rw [hswitch] at hon
  cases hon

end Telemetry

end Scriptlet
