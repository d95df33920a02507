import Highlighting.Proofs.Listing.Writing
import Highlighting.Proofs.Options.Resolution
import Mathlib.Data.List.Nodup

/-!
# Canonical options

Settings hold whatever was given for their flags. They have a canonical sequence of options, which
resolves to the same start number and to the truth of every flag. No other sequence that does so is
shorter, and a listing is the same whether it is asked for by the settings or by these options.
-/

namespace Highlighting
namespace Config

/-! ## Options of a configuration -/

variable (config : Config)

theorem flag_mem_toOptions_iff (f : Flag) :
    .flag f ∈ config.toOptions ↔ config.flag f = true := by
  cases f with
  | numberLines =>
      simp [toOptions, flag]
  | lineAnchors =>
      simp [toOptions, flag]
  | titleAttributes =>
      simp [toOptions, flag]
  | inline =>
      simp [toOptions, flag]

theorem numberFrom_mem_toOptions_iff (start : Int) :
    .numberFrom start ∈ config.toOptions ↔ start = config.numberFrom ∧ start ≠ 1 := by
  simp only [toOptions, List.mem_append, List.mem_ite_nil_right, List.mem_singleton,
    FormatOption.numberFrom.injEq, reduceCtorEq, and_false, false_or, or_false]
  constructor
  · intro h
    exact ⟨h.2, h.2 ▸ h.1⟩
  · intro h
    exact ⟨h.1 ▸ h.2, h.1⟩

theorem toOptions_sublist :
    config.toOptions.Sublist [.flag .numberLines, .numberFrom config.numberFrom,
      .flag .lineAnchors, .flag .titleAttributes, .flag .inline] := by
  have hpart : ∀ (p : Prop) [Decidable p] (option : FormatOption),
      (if p then [option] else []).Sublist [option] := by
    intro p _ option
    split
    · exact List.Sublist.refl _
    · exact List.nil_sublist _
  exact ((((hpart _ _).append (hpart _ _)).append (hpart _ _)).append (hpart _ _)).append
    (hpart _ _)

theorem nodup_toOptions : config.toOptions.Nodup := by
  apply (toOptions_sublist config).nodup
  simp

theorem asksFor_toOptions : AsksFor config.toOptions config.numberFrom := by
  rw [asksFor_iff]
  cases hstart : firstStart config.toOptions with
  | none =>
      have hnone := (firstStart_eq_none_iff _).mp hstart config.numberFrom
      rw [numberFrom_mem_toOptions_iff] at hnone
      by_contra hne
      exact hnone ⟨rfl, fun heq => hne heq.symm⟩
  | some start =>
      rcases (firstStart_eq_some_iff _ _).mp hstart with ⟨before, after, hoptions, _⟩
      have hmem : .numberFrom start ∈ config.toOptions := by
        rw [hoptions]
        exact List.mem_append_right before List.mem_cons_self
      exact ((numberFrom_mem_toOptions_iff config start).mp hmem).1

theorem ofOptions_toOptions : ofOptions (config.toOptions.map .fit) = .ok config := by
  rw [ofOptions_eq_ok_iff]
  refine ⟨config.toOptions, rfl, ?_, asksFor_toOptions config⟩
  intro f
  exact (flag_mem_toOptions_iff config f).symm

variable {config}

theorem toOptions_subset {given : List FormatOption}
    (hflags : ∀ f, config.flag f = true ↔ .flag f ∈ given)
    (hstart : AsksFor given config.numberFrom) : config.toOptions ⊆ given := by
  intro option hmem
  cases option with
  | flag f =>
      exact (hflags f).mp ((flag_mem_toOptions_iff config f).mp hmem)
  | numberFrom start =>
      rcases (numberFrom_mem_toOptions_iff config start).mp hmem with ⟨rfl, hne⟩
      rcases hstart with ⟨before, after, hgiven, _⟩ | ⟨_, hone⟩
      · rw [hgiven]
        exact List.mem_append_right before List.mem_cons_self
      · exact absurd hone hne

theorem length_toOptions_le {options : List (Candidate FormatOption)}
    (h : ofOptions options = .ok config) : config.toOptions.length ≤ options.length := by
  rcases (ofOptions_eq_ok_iff options config).mp h with ⟨given, rfl, hflags, hstart⟩
  rw [List.length_map]
  exact (nodup_toOptions config).length_le_of_subset (toOptions_subset hflags hstart)

end Config

/-! ## Settings -/

namespace Settings

def flag (settings : Settings) : Flag → Argument
  | .numberLines => settings.numberLines
  | .lineAnchors => settings.lineAnchors
  | .titleAttributes => settings.titleAttributes
  | .inline => settings.inline

theorem eq_of_parts {s₁ s₂ : Settings} (hflag : ∀ f, s₁.flag f = s₂.flag f)
    (hstart : s₁.numberFrom = s₂.numberFrom) : s₁ = s₂ := by
  have hlines : s₁.numberLines = s₂.numberLines := hflag .numberLines
  have hanchors : s₁.lineAnchors = s₂.lineAnchors := hflag .lineAnchors
  have htitles : s₁.titleAttributes = s₂.titleAttributes := hflag .titleAttributes
  have hinline : s₁.inline = s₂.inline := hflag .inline
  cases s₁
  cases s₂
  simp_all

theorem startNumber_eq_ok_iff (what : String) (argument : Argument) (start : Int) :
    startNumber what argument = .ok start ↔ argument = .data (.int start) := by
  unfold startNumber
  split
  · rw [Except.ok.injEq, Argument.data.injEq, Value.int.injEq]
  · rename_i hother
    constructor
    · intro h
      cases h
    · intro h
      exact absurd h (hother start)

theorem ofFields_eq_ok_iff (fields : List (String × Argument)) (settings : Settings) :
    ofFields fields = .ok settings ↔
      argument (.data (.int 1)) "number_from" fields = .data (.int settings.numberFrom) ∧
        ∀ f : Flag, settings.flag f = argument (.data (.bool false)) f.field fields := by
  rw [← startNumber_eq_ok_iff "number_from", ofFields]
  cases startNumber "number_from" (argument (.data (.int 1)) "number_from" fields) with
  | error e =>
      constructor
      · intro h
        cases h
      · intro h
        cases h.1
  | ok start =>
      rw [Except.map, Except.ok.injEq, Except.ok.injEq]
      constructor
      · intro h
        rw [← h]
        refine ⟨rfl, ?_⟩
        intro f
        cases f with
        | _ =>
            rfl
      · intro h
        apply eq_of_parts
        · intro f
          rw [h.2 f]
          cases f with
          | _ =>
              rfl
        · exact h.1

variable (settings : Settings)

theorem flag_config (f : Flag) : settings.config.flag f = (settings.flag f).isTruthy := by
  cases f with
  | _ =>
      rfl

theorem flag_ofConfig (config : Config) (f : Flag) :
    (ofConfig config).flag f = .data (.bool (config.flag f)) := by
  cases f with
  | _ =>
      rfl

theorem ofOptions_eq_ok_iff (options : List (Candidate FormatOption)) :
    ofOptions options = .ok settings ↔
      ∃ config, Config.ofOptions options = .ok config ∧
        settings.numberFrom = config.numberFrom ∧
        ∀ f, settings.flag f = .data (.bool (config.flag f)) := by
  rw [ofOptions]
  cases Config.ofOptions options with
  | error e =>
      constructor
      · intro h
        cases h
      · intro h
        rcases h with ⟨config, h, _⟩
        cases h
  | ok config =>
      rw [Except.map, Except.ok.injEq]
      constructor
      · intro h
        rw [← h]
        exact ⟨config, rfl, rfl, flag_ofConfig config⟩
      · intro h
        rcases h with ⟨config', hconfig, hstart, hflags⟩
        cases hconfig
        apply eq_of_parts
        · intro f
          rw [flag_ofConfig, hflags f]
        · exact hstart.symm

theorem toOptions_eq : settings.toOptions = settings.config.toOptions := by
  rfl

theorem ofOptions_toOptions :
    ofOptions (settings.toOptions.map .fit) = .ok (ofConfig settings.config) := by
  rw [ofOptions, toOptions_eq, Config.ofOptions_toOptions]
  rfl

variable {settings}

/-- Only the start number and the truth of the flags decide which options are canonical. -/
theorem length_toOptions_le {resolved : Settings} {options : List (Candidate FormatOption)}
    (h : ofOptions options = .ok resolved) (hstart : resolved.numberFrom = settings.numberFrom)
    (hflags : ∀ f, (resolved.flag f).isTruthy = (settings.flag f).isTruthy) :
    settings.toOptions.length ≤ options.length := by
  have hconfig : resolved.config = settings.config := by
    apply Config.eq_of_parts
    · intro f
      rw [flag_config, flag_config, hflags f]
    · exact hstart
  rcases (ofOptions_eq_ok_iff resolved options).mp h with ⟨config, hoptions, hnumber, hgiven⟩
  have hsame : config = resolved.config := by
    apply Config.eq_of_parts
    · intro f
      rw [flag_config, hgiven f]
      rfl
    · exact hnumber.symm
  rw [hsame, hconfig] at hoptions
  rw [toOptions_eq]
  exact Config.length_toOptions_le hoptions

/-! ## Listings in the layout of settings -/

theorem respond_settings (format : OutputFormat) (settings : Settings) (language : String)
    (lines : List (List Item)) :
    format.respond (.settings settings) language lines =
      (format.render settings.config language lines).mapError .token := by
  rw [← format.write_eq_render settings language lines]
  rfl

theorem respond_toOptions (format : OutputFormat) (settings : Settings) (language : String)
    (lines : List (List Item)) :
    format.respond (.options (.sequence (settings.toOptions.map .fit))) language lines =
      format.respond (.settings settings) language lines := by
  have hresolve : (LayoutRequest.options (.sequence (settings.toOptions.map .fit))).resolve =
      .ok (ofConfig settings.config) := ofOptions_toOptions settings
  have hconfig : (ofConfig settings.config).config = settings.config := rfl
  rw [respond_settings, ← hconfig, ← respond_settings, OutputFormat.respond, hresolve]
  rfl

/--
Settings keep whatever is given for the flags; only the start number is checked, which has to be an
integer. Settings that come from options have truth values for flags. The canonical options of
settings resolve to the same start number and to the truth of each flag, and so have the same
canonical options again. No sequence that resolves to these is shorter, and in both formats every
listing is the same for the settings and for their canonical options, also where an item is improper:
it is the listing in which every flag counts by its truth.
-/
theorem toOptions_canonical :
    (∀ fields settings, ofFields fields = .ok settings ↔
      argument (.data (.int 1)) "number_from" fields = .data (.int settings.numberFrom) ∧
        ∀ f : Flag, settings.flag f = argument (.data (.bool false)) f.field fields) ∧
    (∀ options settings, ofOptions options = .ok settings ↔
      ∃ config, Config.ofOptions options = .ok config ∧
        settings.numberFrom = config.numberFrom ∧
        ∀ f, settings.flag f = .data (.bool (config.flag f))) ∧
    ∀ settings : Settings,
      (∃ resolved, ofOptions (settings.toOptions.map .fit) = .ok resolved ∧
        resolved.numberFrom = settings.numberFrom ∧
        (∀ f, resolved.flag f = .data (.bool (settings.flag f).isTruthy)) ∧
        resolved.toOptions = settings.toOptions) ∧
      (∀ options resolved, ofOptions options = .ok resolved →
        resolved.numberFrom = settings.numberFrom →
        (∀ f, (resolved.flag f).isTruthy = (settings.flag f).isTruthy) →
          settings.toOptions.length ≤ options.length) ∧
      ∀ (format : OutputFormat) (language : String) (lines : List (List Item)),
        format.respond (.settings settings) language lines =
          format.respond (.options (.sequence (settings.toOptions.map .fit))) language lines ∧
        format.respond (.settings settings) language lines =
          (format.render settings.config language lines).mapError .token := by
  refine ⟨ofFields_eq_ok_iff, ?_, ?_⟩
  · intro options settings
    exact ofOptions_eq_ok_iff settings options
  · intro settings
    refine ⟨?_, ?_, ?_⟩
    · exact ⟨_, ofOptions_toOptions settings, rfl, fun f => by rw [flag_ofConfig, flag_config], rfl⟩
    · intro options resolved hresolved hstart hflags
      exact length_toOptions_le hresolved hstart hflags
    · intro format language lines
      exact ⟨(respond_toOptions format settings language lines).symm,
        respond_settings format settings language lines⟩

/-- A text and a list as flags, an object that counts as false, and a name that is no setting. -/
theorem toOptions_canonical_untyped :
    let fields : List (String × Argument) := [("number_lines", .data (.text "no")),
      ("colour", .data (.text "x")), ("number_from", .data (.int 0)),
      ("line_anchors", .other "<object>" false), ("inline", .data (.list []))]
    let options : List (Candidate FormatOption) := [.fit (.flag .numberLines), .fit (.numberFrom 0)]
    ∃ settings resolved, ofFields fields = .ok settings ∧
      settings.flag .lineAnchors = .other "<object>" false ∧
      ofOptions options = .ok resolved ∧ resolved.flag .numberLines = .data (.bool true) ∧
      resolved.flag .lineAnchors = .data (.bool false) ∧
      ∀ (format : OutputFormat) (language : String) (lines : List (List Item)),
        format.respond (.settings settings) language lines =
          format.respond (.options (.sequence options)) language lines := by
  intro fields options
  let settings : Settings := {
    numberLines := .data (.text "no")
    numberFrom := 0
    lineAnchors := .other "<object>" false
    inline := .data (.list []) }
  have hsettings : ofFields fields = .ok settings := rfl
  rcases toOptions_canonical with ⟨hfields, _, hcanonical⟩
  have hanchors := ((hfields fields settings).mp hsettings).2 .lineAnchors
  rcases hcanonical settings with ⟨⟨resolved, hresolved, _, hflags, _⟩, _, hlistings⟩
  refine ⟨settings, resolved, hsettings, hanchors, hresolved, hflags .numberLines,
    hflags .lineAnchors, ?_⟩
  intro format language lines
  exact (hlistings format language lines).1

end Settings
end Highlighting
