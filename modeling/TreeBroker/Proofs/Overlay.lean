import TreeBroker.Proofs.Actions
import TreeBroker.Proofs.TextPaths
import TreeBroker.Settings

/-!
# The environment over settings

Three variables may be laid over settings: one for the debug flag, one for the
preferred backend, one for trusted directories. Any of them may be missing, and
only the second can be wrong – when it names, in whatever case and with whatever
blanks around it, something that is no name of a backend.

One would like a wrong name to leave the settings alone. It does not: the variables
are applied one after another, and the debug flag is set *before* the name is
read that is refused. So after a failure the settings are the old ones but for that
field, and that is all: no other field is touched before the name has been read. A
success lays all three variables over the settings and leaves everything else as it
was (`Settings.Overlaid`).
-/

namespace TreeBroker

/-! ## Segments -/

namespace Path

variable {α : Type} [DecidableEq α]

/-- **The segments of a list** between separators: with separators between them they
spell the list, and none has a separator of its own. -/
structure Segments (sep : α) (cs : List α) (pieces : List (List α)) : Prop where
  /-- There is a segment, if only the empty one. -/
  nonempty : pieces ≠ []
  /-- No segment has a separator. -/
  free : ∀ piece ∈ pieces, sep ∉ piece
  /-- They spell the list. -/
  spell : [sep].intercalate pieces = cs

/-- **Cutting gives the segments**, and there is no other way to cut. -/
theorem segments_iff {sep : α} {cs : List α} {pieces : List (List α)} :
    Segments sep cs pieces ↔ splitOn sep cs = pieces := by
  constructor
  · rintro ⟨hsome, hfree, rfl⟩
    rw [splitOn_eq]
    exact List.splitOn_intercalate sep hfree hsome
  · rintro rfl
    refine ⟨splitOn_ne_nil sep cs, fun piece => sep_notMem_of_mem_splitOn, ?_⟩
    rw [splitOn_eq]
    exact List.intercalate_splitOn sep

end Path

/-! ## What the variables say -/

namespace Environment

variable (env : Environment)

/-- **The backend that the environment names**, if its variable is set and not blank:
in small letters, without white space around it. -/
def backendName? : Option String :=
  ((env Settings.backendVariable).filter fun value => !Text.isBlank value).map fun value =>
    String.ofList (Ascii.lower (Text.trim value.toList))

/-- **The environment misnames a backend**: it names one, and the name is not safe. -/
def Misnames : Prop := ∃ name, env.backendName? = some name ∧ Name.isSafe name.toList = false

/-- The debug flag under the environment, over an old one. -/
def debugOver (old : Bool) : Bool := (env Settings.debugVariable).elim old Name.isTruthy

end Environment

namespace Settings

/-- **Settings under the environment**: each variable that is set has laid its value
over its field, and the other fields are the old ones. -/
structure Overlaid (env : Environment) (c c' : Settings) : Prop where
  /-- The debug flag is that of the variable. -/
  debug : c'.debug = env.debugOver c.debug
  /-- The backend is the one that is named. -/
  backend : c'.backend.map (·.text) = env.backendName?.or (c.backend.map (·.text))
  /-- The segments of the variable that are not empty come behind the trusted
  directories that were there. -/
  trusted : match env trustedVariable with
    | none => c'.locator.trustedDirs = c.locator.trustedDirs
    | some value => ∃ pieces, Path.Segments 58 (Utf8.bytes value) pieces ∧
        c'.locator.trustedDirs =
          c.locator.trustedDirs ++ (pieces.filter (· ≠ [])).map FilePath.mk
  /-- Nothing else has changed. -/
  rest : c' = { c with
    debug := c'.debug
    backend := c'.backend
    locator := { c.locator with trustedDirs := c'.locator.trustedDirs } }

/-! ## One variable after another -/

/-- The settings after the first variable. -/
def afterDebug (env : Environment) (c : Settings) : Settings :=
  { c with debug := env.debugOver c.debug }

/-- The settings after the last variable. -/
def afterTrusted (env : Environment) (c : Settings) : Settings :=
  { c with locator := { c.locator with
      trustedDirs := (env trustedVariable).elim c.locator.trustedDirs fun value =>
        c.locator.trustedDirs ++ splitPaths value } }

/-- **The variables are applied in order**, up to a name that is none. -/
theorem on_applyEnvironment (env : Environment) (c : Settings) :
    Action.on (applyEnvironment env) c =
      match env.backendName?.map BackendKind.parse with
      | none => (.ok (), afterTrusted env (afterDebug env c))
      | some (.ok kind) => (.ok (), afterTrusted env { afterDebug env c with backend := some kind })
      | some (.error e) => (.error e, afterDebug env c) := by
  unfold applyEnvironment afterTrusted afterDebug Environment.debugOver
  cases hname : env.backendName? with
  | none =>
    -- the variable is not set, or blank
    have hskip : (env backendVariable).filter (fun value => !Text.isBlank value) = none := by
      simpa [Environment.backendName?] using hname
    cases hb : env backendVariable with
    | none => cases env debugVariable <;> cases env trustedVariable <;> simp [Action.on_bind]
    | some value =>
      rw [hb] at hskip
      have hblank : Text.isBlank value = true := by simpa [Option.filter] using hskip
      cases env debugVariable <;> cases env trustedVariable <;> simp [Action.on_bind, hblank]
  | some name =>
    obtain ⟨value, hset, hspelled⟩ := Option.map_eq_some_iff.mp hname
    obtain ⟨hb, hfull⟩ := Option.filter_eq_some_iff.mp hset
    have hparse : (ExceptT.mk (pure (BackendKind.parseSetting value)) :
        Action Settings BackendKind) = Action.ofExcept (BackendKind.parse name) := by
      rw [← hspelled]
      rfl
    simp only [hb, hfull, hparse, Option.map_some, if_true]
    cases BackendKind.parse name with
    | error e => cases env debugVariable <;> simp [Action.on_bind]
    | ok kind => cases env debugVariable <;> cases env trustedVariable <;> simp [Action.on_bind]

/-! ## What is left -/

variable {env : Environment} {c : Settings}

theorem misnames_of_backendName? {name : String} (h : env.backendName? = some name) :
    env.Misnames ↔ Name.isSafe name.toList = false := by
  simp [Environment.Misnames, h]

theorem afterTrusted_overlaid (backend : Option BackendKind)
    (h : backend.map (·.text) = env.backendName?.or (c.backend.map (·.text))) :
    Overlaid env c (afterTrusted env { afterDebug env c with backend }) where
  debug := rfl
  backend := h
  trusted := by
    unfold afterTrusted
    cases env trustedVariable with
    | none => rfl
    | some value => exact ⟨_, Path.segments_iff.mpr rfl, rfl⟩
  rest := rfl

/-- **A bad name stops halfway**: the settings are the old ones but for the
debug flag. -/
theorem on_applyEnvironment_of_misnames (h : env.Misnames) (c : Settings) :
    ∃ name, Action.on (applyEnvironment env) c =
      (.error (.configuration (.backendName name)), afterDebug env c) := by
  obtain ⟨name, hname, hunsafe⟩ := h
  refine ⟨name, ?_⟩
  have hparse : BackendKind.parse name = .error (.configuration (.backendName name)) := by
    simp [BackendKind.parse, BackendKind.ofString?, hunsafe]
  rw [on_applyEnvironment, hname, Option.map_some, hparse]

/-- **Without one** every variable is laid over the settings. -/
theorem on_applyEnvironment_of_not_misnames (h : ¬env.Misnames) (c : Settings) :
    ∃ c', Action.on (applyEnvironment env) c = (.ok (), c') ∧ Overlaid env c c' := by
  rw [on_applyEnvironment]
  cases hname : env.backendName? with
  | none => exact ⟨_, rfl, afterTrusted_overlaid c.backend (by simp [hname])⟩
  | some name =>
    have hsafe : Name.isSafe name.toList = true := by
      simpa [misnames_of_backendName? hname] using h
    have hparse : BackendKind.parse name = .ok ⟨name, hsafe⟩ := by
      simp [BackendKind.parse, BackendKind.ofString?, hsafe]
    rw [Option.map_some, hparse]
    exact ⟨_, rfl, afterTrusted_overlaid (some ⟨name, hsafe⟩) (by simp [hname])⟩

/-- **The environment over settings.** It is refused just when it misnames a backend;
then the settings keep all but the debug flag, which is already that of the
environment. Otherwise the settings have every variable laid over them and are the
old ones beside. -/
theorem applyEnvironment_overlay (env : Environment) (c : Settings) :
    ((∃ e, (Action.on (applyEnvironment env) c).1 = .error e) ↔ env.Misnames) ∧
    (∀ e c', Action.on (applyEnvironment env) c = (.error e, c') →
      c' = { c with debug := env.debugOver c.debug }) ∧
    ∀ c', Action.on (applyEnvironment env) c = (.ok (), c') → Overlaid env c c' := by
  by_cases h : env.Misnames
  · obtain ⟨name, hon⟩ := on_applyEnvironment_of_misnames h c
    refine ⟨by simp [hon, h], fun e c' he => ?_, fun c' hok => ?_⟩
    · exact (Prod.mk.inj (hon.symm.trans he)).2.symm
    · cases hon.symm.trans hok
  · obtain ⟨c₁, hon, hover⟩ := on_applyEnvironment_of_not_misnames h c
    refine ⟨by simp [hon, h], fun e c' he => ?_, fun c' hok => ?_⟩
    · cases hon.symm.trans he
    · obtain rfl := (Prod.mk.inj (hon.symm.trans hok)).2
      exact hover

/-- An environment that turns debugging on and misnames a backend. -/
def boldEnvironment : Environment :=
  Environment.ofList [(debugVariable, "1"), (backendVariable, "no such/backend")]

/-- **A refusal is not without effect**: debugging is on in the default settings. -/
theorem applyEnvironment_halfway :
    (∃ e, (Action.on (applyEnvironment boldEnvironment) {}).1 = .error e) ∧
    (Action.on (applyEnvironment boldEnvironment) {}).2 = { debug := true } ∧
    (Action.on (applyEnvironment boldEnvironment) {}).2 ≠ {} := by
  have misnames : boldEnvironment.Misnames := ⟨"no such/backend", by decide, by decide⟩
  obtain ⟨name, hon⟩ := on_applyEnvironment_of_misnames misnames {}
  have hdebug : afterDebug boldEnvironment {} = { debug := true } := by decide
  rw [hon, hdebug]
  exact ⟨⟨_, rfl⟩, rfl, nofun⟩

end Settings

end TreeBroker
