/-
What a run leaves behind.

A run reads the configuration, then the runs, makes the report and puts it where it
belongs.  Each stage may fail (`Fails`), and up to the last one nothing is written,
so that a run which fails leaves the files as they were and prints nothing.  A run
that fails at no stage puts the text of its report into the one file it is told to,
or else to standard output (`run_effect`).
-/
import RunCompare.Proofs.CommandLine.Files

namespace RunCompare.CommandLine

variable {σ φ : Type} [DecidableEq φ]

/-! ### The stages of a run -/

section

variable (fs : FileSystem σ φ) (time : String) (options : Options) (s : σ)

/-- The path of the runs: as it is given, or else as the configuration has it, seen from the
directory of the configuration. -/
def inputPath? (options : Options) (config : Config) : Option String :=
  match options.input with
  | some input => some input
  | none => config.input.map (Path.join (Path.directory options.config))

/-- The file of the configuration can be read and holds a valid one. -/
def Configured (config : Config) : Prop :=
  ∃ text, fs.text? s options.config = some text ∧ Config.ofText text = .ok config

/-- The runs are named, and their file can be read. -/
def Loaded (config : Config) (input data : String) : Prop :=
  Configured fs options s config ∧ inputPath? options config = some input ∧
    fs.text? s input = some data

/-- The runs of a file are analysed with a result. -/
def Analyzed (input : String) (result : Except AnalysisError (Report Binary64)) : Prop :=
  ∃ config data, Loaded fs options s config input data ∧
    analyze config time (Ingested.ofText config.skipHeader data.toList).runs = result

/-- The runs are analysed with a report that has a text in the format that is asked for. -/
def Reported (text : String) : Prop :=
  ∃ input report, Analyzed fs time options s input (.ok report) ∧
    text = report.render options.format

/-- The stages at which a run fails. -/
inductive Fails : Failure → Prop
  | unreadableConfig (h : fs.text? s options.config = none) :
      Fails (.unreadableConfig options.config)
  | badConfig {text : String} {e : ConfigError} (h : fs.text? s options.config = some text)
      (hbad : Config.ofText text = .error e) : Fails (.badConfig e)
  | noInput {config : Config} (h : Configured fs options s config)
      (hnone : inputPath? options config = none) : Fails (.noInput options.config)
  | unreadableInput {config : Config} {input : String} (h : Configured fs options s config)
      (hinput : inputPath? options config = some input) (hnone : fs.text? s input = none) :
      Fails (.unreadableInput input)
  | failedAnalysis {input : String} {e : AnalysisError}
      (h : Analyzed fs time options s input (.error e)) : Fails (.failedAnalysis input e)
  | unwritableReport {text path : String} (h : Reported fs time options s text)
      (hpath : options.output = some path) (hnone : fs.write s path text.toUTF8 = none) :
      Fails (.unwritableReport path)

/-- Of all files exactly the one to which a path leads has changed, and it holds a text. -/
def Written (path text : String) (s' : σ) : Prop :=
  ∃ file, fs.locate s path = some file ∧ fs.locate s' = fs.locate s ∧
    ∀ other, fs.content s' other = if other = file then some text.toUTF8 else fs.content s other

/-- What a run leaves behind. -/
structure Effect (o : Outcome) (s' : σ) : Prop where
  /-- A run that fails prints nothing and leaves the files as they were. -/
  failed : ∀ failure, Fails fs time options s failure →
    o = ⟨1, "", some failure.message⟩ ∧ s' = s
  /-- A run that does not fail puts the text of its report into its file and nowhere else. -/
  written : (∀ failure, ¬ Fails fs time options s failure) → ∀ path, options.output = some path →
    ∃ text, Reported fs time options s text ∧ o = ⟨0, "", none⟩ ∧ Written fs s path text s'
  /-- Without a file for it, the text is all that is printed and the files are as they were. -/
  printed : (∀ failure, ¬ Fails fs time options s failure) → options.output = none →
    ∃ text, Reported fs time options s text ∧ o = ⟨0, text, none⟩ ∧ s' = s

end

/-! ### The stages one after the other -/

section

variable {α β : Type} {s s' : σ}

theorem run_bind_ok {x : ExceptT Failure (StateM σ) α} {f : α → ExceptT Failure (StateM σ) β}
    {a : α} (h : x.run.run s = (.ok a, s')) : (x >>= f).run.run s = (f a).run.run s' := by
  show (x.run >>= ExceptT.bindCont f).run s = _
  rw [StateT.run_bind, h]
  rfl

theorem run_bind_error {x : ExceptT Failure (StateM σ) α} {f : α → ExceptT Failure (StateM σ) β}
    {e : Failure} (h : x.run.run s = (.error e, s')) :
    (x >>= f).run.run s = (.error e, s') := by
  show (x.run >>= ExceptT.bindCont f).run s = _
  rw [StateT.run_bind, h]
  rfl

end

section

variable {fs : FileSystem σ φ} {time : String} {options : Options} {s : σ} {config : Config}

/-- The configuration with its path of the runs seen from the directory of its file. -/
def resolved (options : Options) (config : Config) : Config :=
  { config with input := config.input.map (Path.join (Path.directory options.config)) }

theorem readText_run (path : String) :
    (liftM (readText (fs.access time) path) : ExceptT Failure (StateM σ) _).run.run s =
      (.ok (fs.text? s path), s) :=
  rfl

theorem loadConfig_unreadable (h : fs.text? s options.config = none) :
    (loadConfig (fs.access time) options.config).run.run s =
      (.error (.unreadableConfig options.config), s) := by
  unfold loadConfig
  rw [run_bind_ok (readText_run _), h]
  rfl

theorem loadConfig_bad {text : String} {e : ConfigError} (h : fs.text? s options.config = some text)
    (hbad : Config.ofText text = .error e) :
    (loadConfig (fs.access time) options.config).run.run s = (.error (.badConfig e), s) := by
  unfold loadConfig
  rw [run_bind_ok (readText_run _), h]
  dsimp only
  rw [hbad]
  rfl

theorem loadConfig_configured (h : Configured fs options s config) :
    (loadConfig (fs.access time) options.config).run.run s =
      (.ok (resolved options config), s) := by
  obtain ⟨text, htext, hconfig⟩ := h
  unfold loadConfig
  rw [run_bind_ok (readText_run _), htext]
  dsimp only
  rw [hconfig]
  rfl

/-- The path is chosen after the one in the configuration has been resolved. -/
theorem chooseInput_resolved (options : Options) (config : Config) :
    chooseInput options (resolved options config) =
      match inputPath? options config with
      | none => .error (.noInput options.config)
      | some input => .ok input := by
  unfold chooseInput inputPath? resolved
  cases options.input with
  | some input => rfl
  | none =>
      cases config.input with
      | none => rfl
      | some input => rfl

theorem chooseInput_run {input : String} (h : inputPath? options config = some input) :
    (liftM (chooseInput options (resolved options config)) :
      ExceptT Failure (StateM σ) String).run.run s = (.ok input, s) := by
  rw [chooseInput_resolved, h]
  rfl

theorem loadRuns_unreadable {skipHeader : Bool} {input : String} (h : fs.text? s input = none) :
    (loadRuns (fs.access time) skipHeader input).run.run s =
      (.error (.unreadableInput input), s) := by
  unfold loadRuns
  rw [run_bind_ok (readText_run _), h]
  rfl

theorem loadRuns_of_text {skipHeader : Bool} {input data : String}
    (h : fs.text? s input = some data) :
    (loadRuns (fs.access time) skipHeader input).run.run s =
      (.ok (Ingested.ofText skipHeader data.toList), s) := by
  unfold loadRuns
  rw [run_bind_ok (readText_run _), h]
  rfl

/-! ### The report -/

theorem makeReport_noInput (h : Configured fs options s config)
    (hnone : inputPath? options config = none) :
    (makeReport (fs.access time) options).run.run s = (.error (.noInput options.config), s) := by
  unfold makeReport
  rw [run_bind_ok (loadConfig_configured h), chooseInput_resolved, hnone]
  rfl

theorem makeReport_unreadableInput {input : String} (h : Configured fs options s config)
    (hinput : inputPath? options config = some input) (hnone : fs.text? s input = none) :
    (makeReport (fs.access time) options).run.run s = (.error (.unreadableInput input), s) := by
  unfold makeReport
  rw [run_bind_ok (loadConfig_configured h), run_bind_ok (chooseInput_run hinput),
    run_bind_error (loadRuns_unreadable hnone)]

theorem makeReport_analyzed {input : String} {result : Except AnalysisError (Report Binary64)}
    (h : Analyzed fs time options s input result) :
    (makeReport (fs.access time) options).run.run s =
      (result.mapError (.failedAnalysis input), s) := by
  obtain ⟨config, data, ⟨hconfig, hinput, hdata⟩, hresult⟩ := h
  have hnow : (liftM (fs.access time).now : ExceptT Failure (StateM σ) String).run.run s =
      (.ok time, s) := rfl
  -- The analysis does not look at the path of the runs.
  have hanalyze : analyze (resolved options config) time
      (Ingested.ofText (resolved options config).skipHeader data.toList).runs = result := hresult
  unfold makeReport
  rw [run_bind_ok (loadConfig_configured hconfig), run_bind_ok (chooseInput_run hinput),
    run_bind_ok (loadRuns_of_text hdata), run_bind_ok hnow, hanalyze]
  cases result with
  | error e => rfl
  | ok report => rfl

/-! ### The whole run -/

theorem write_run_none {path text : String} (h : fs.write s path text.toUTF8 = none) :
    (liftM ((fs.access time).write path text) : ExceptT Failure (StateM σ) Bool).run.run s =
      (.ok false, s) := by
  have hrun : ((fs.access time).write path text).run s = (false, s) := by
    unfold FileSystem.access
    simp only [StateT.run_bind, StateT.run_get, pure_bind, h]
    rfl
  show (Except.ok <$> (fs.access time).write path text).run s = _
  rw [StateT.run_map, hrun]
  rfl

theorem write_run_some {path text : String} {s' : σ}
    (h : fs.write s path text.toUTF8 = some s') :
    (liftM ((fs.access time).write path text) : ExceptT Failure (StateM σ) Bool).run.run s =
      (.ok true, s') := by
  have hrun : ((fs.access time).write path text).run s = (true, s') := by
    unfold FileSystem.access
    simp only [StateT.run_bind, StateT.run_get, pure_bind, h]
    rfl
  show (Except.ok <$> (fs.access time).write path text).run s = _
  rw [StateT.run_map, hrun]
  rfl

theorem produce_of_error {failure : Failure}
    (h : (makeReport (fs.access time) options).run.run s = (.error failure, s)) :
    (produce (fs.access time) options).run.run s = (.error failure, s) := by
  unfold produce
  rw [run_bind_error h]

/-- Up to the last stage a run that fails has written nothing, and a write that fails leaves
nothing behind. -/
theorem produce_of_fails {failure : Failure} (h : Fails fs time options s failure) :
    (produce (fs.access time) options).run.run s = (.error failure, s) := by
  cases h with
  | unreadableConfig h =>
      refine produce_of_error ?_
      unfold makeReport
      rw [run_bind_error (loadConfig_unreadable h)]
  | badConfig h hbad =>
      refine produce_of_error ?_
      unfold makeReport
      rw [run_bind_error (loadConfig_bad h hbad)]
  | noInput h hnone => exact produce_of_error (makeReport_noInput h hnone)
  | unreadableInput h hinput hnone =>
      exact produce_of_error (makeReport_unreadableInput h hinput hnone)
  | failedAnalysis h => exact produce_of_error (makeReport_analyzed h)
  | unwritableReport h hpath hnone =>
      obtain ⟨input, report, hreport, rfl⟩ := h
      unfold produce
      rw [run_bind_ok (makeReport_analyzed hreport), hpath]
      dsimp only
      rw [run_bind_ok (write_run_none hnone)]
      rfl

theorem produce_printed {text : String} (h : Reported fs time options s text)
    (hnone : options.output = none) :
    (produce (fs.access time) options).run.run s = (.ok text, s) := by
  obtain ⟨input, report, hreport, rfl⟩ := h
  unfold produce
  rw [run_bind_ok (makeReport_analyzed hreport), hnone]
  rfl

theorem produce_written {text path : String} {s' : σ} (h : Reported fs time options s text)
    (hpath : options.output = some path) (hwrite : fs.write s path text.toUTF8 = some s') :
    (produce (fs.access time) options).run.run s = (.ok "", s') := by
  obtain ⟨input, report, hreport, rfl⟩ := h
  unfold produce
  rw [run_bind_ok (makeReport_analyzed hreport), hpath]
  dsimp only
  rw [run_bind_ok (write_run_some hwrite)]
  rfl

/-- A run fails at one of its stages, or there is a report and it can be put where it belongs. -/
theorem fails_or_reported (fs : FileSystem σ φ) (time : String) (options : Options) (s : σ) :
    (∃ failure, Fails fs time options s failure) ∨
      ∃ text, Reported fs time options s text ∧ ∀ path, options.output = some path →
        ∃ s', fs.write s path text.toUTF8 = some s' := by
  cases htext : fs.text? s options.config with
  | none => exact Or.inl ⟨_, .unreadableConfig htext⟩
  | some text =>
  cases hconfig : Config.ofText text with
  | error e => exact Or.inl ⟨_, .badConfig htext hconfig⟩
  | ok config =>
  have hconfigured : Configured fs options s config := ⟨text, htext, hconfig⟩
  cases hinput : inputPath? options config with
  | none => exact Or.inl ⟨_, .noInput hconfigured hinput⟩
  | some input =>
  cases hdata : fs.text? s input with
  | none => exact Or.inl ⟨_, .unreadableInput hconfigured hinput hdata⟩
  | some data =>
  have hloaded : Loaded fs options s config input data := ⟨hconfigured, hinput, hdata⟩
  cases hresult : analyze config time (Ingested.ofText config.skipHeader data.toList).runs with
  | error e => exact Or.inl ⟨_, .failedAnalysis ⟨config, data, hloaded, hresult⟩⟩
  | ok report =>
  have hreported : Reported fs time options s (report.render options.format) :=
    ⟨input, report, ⟨config, data, hloaded, hresult⟩, rfl⟩
  cases hpath : options.output with
  | none => exact Or.inr ⟨_, hreported, by simp⟩
  | some path =>
  cases hwrite : fs.write s path (report.render options.format).toUTF8 with
  | none => exact Or.inl ⟨_, .unwritableReport hreported hpath hwrite⟩
  | some s' =>
      refine Or.inr ⟨_, hreported, ?_⟩
      intro path' hpath'
      cases hpath'
      exact ⟨s', hwrite⟩

/-- The outcome of a run with what it produces. -/
def outcomeOf : Except Failure String → Outcome
  | .ok text => ⟨0, text, none⟩
  | .error failure => ⟨1, "", some failure.message⟩

theorem run_of_produce {arguments : List String} {result : Except Failure String} {s' : σ}
    (harguments : Invocation.ofArguments arguments = .run options)
    (h : (produce (fs.access time) options).run.run s = (result, s')) :
    (run (fs.access time) arguments).run s = (outcomeOf result, s') := by
  unfold run
  rw [harguments]
  dsimp only
  rw [StateT.run_bind, h]
  cases result with
  | error failure => rfl
  | ok text => rfl

end

/-- A configuration that names the file of the runs beside it, and an older report. -/
def studyDisk : Disk where
  directories := [["study"]]
  files := [(["study", "analysis.toml"],
      "[analysis]\nname = \"Cache\"\ninput = \"runs.jsonl\"\n".toUTF8),
    (["study", "runs.jsonl"], "header\n".toUTF8), (["out.md"], "old".toUTF8)]

/-- The report as Markdown, in place of the older one. -/
def studyArguments : List String := ["study/analysis.toml", "-f", "md", "-o", "out.md"]

def studyOptions : Options := ⟨"study/analysis.toml", none, .markdown, some "out.md"⟩

end RunCompare.CommandLine
