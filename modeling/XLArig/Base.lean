import XLArig.BaseConfig

/-!
# XLArig.Base

`base/kernel/Base`: the configuration of the running process is exchanged for one that comes in
a request, or from its file when that was changed.

A configuration is read into an object of its own, which is thrown away if no pool is active.
The settings of the log are not part of it: `BaseConfig::read` has set them by then
(`rejected_iff`).
-/

namespace XLArig

namespace Base

/-! ## The log -/

/-- The settings of the log are not read, or are what they are already. -/
def SameLog (log : Log) (r : Reader) : Prop :=
  (∀ b, r.find? (bytes "colors") Json.bool? = some b → b = log.colors) ∧
    (∀ b, (r.getValue (bytes "verbose")).bool? = some b → log.verbose = if b then 1 else 0) ∧
    ∀ n, (r.getValue (bytes "verbose")).uint? = some n → log.verbose = n

/-- The log after `BaseConfig::read`. -/
def readLog (log : Log) (r : Reader) : Log :=
  { log with colors := r.getBool (bytes "colors") log.colors }.setVerbose
    (r.getValue (bytes "verbose"))

section

variable {log : Log} {r : Reader} {value : Json} {colors : Bool}

theorem setVerbose_colors : ({ log with colors }.setVerbose value).colors = colors := by
  unfold Log.setVerbose
  split
  · rfl
  · split <;> rfl

theorem setVerbose_verbose_iff : ({ log with colors }.setVerbose value).verbose = log.verbose ↔
    (∀ b, value.bool? = some b → log.verbose = if b then 1 else 0) ∧
      ∀ n, value.uint? = some n → log.verbose = n := by
  cases value with
  | bool b => simp [Log.setVerbose, Json.bool?, Json.uint?, eq_comm]
  | int n =>
      cases hn : (Json.int n).uint? with
      | none => simp [Log.setVerbose, Json.bool?, hn]
      | some k => simp [Log.setVerbose, Json.bool?, hn, eq_comm]
  | _ => simp [Log.setVerbose, Json.bool?, Json.uint?]

theorem readLog_eq_iff : readLog log r = log ↔ SameLog log r := by
  have hext : ∀ log' : Log, log' = log ↔ log'.colors = log.colors ∧ log'.verbose = log.verbose := by
    intro log'
    cases log
    cases log'
    simp
  rw [hext, readLog, setVerbose_colors, setVerbose_verbose_iff, SameLog]
  refine and_congr_left' ?_
  unfold Reader.getBool
  cases r.find? (bytes "colors") Json.bool? <;> simp

end

end Base

open Base

/-! ## The process -/

/-- `BasePrivate`, with the process around it: the log, what is in the configuration file, and
the configurations that the listeners were told about, the newest first. -/
structure Base where
  config : Base.Config
  log : Log
  file : Option Json
  watcher : Bool
  announced : List Base.Config

namespace Base

section

variable [Features] (host : Host)

/-- `BasePrivate::replace`. -/
def replace (s : Base) (config : Config) : Base :=
  { s with
    config
    announced := config :: s.announced }

/-- `BaseConfig::save`, and whether it succeeds; `writable` says whether the file can be
opened. -/
def save (s : Base) (config : Config) (writable : Bool) : Base × Bool :=
  if config.fileName.isSome && writable then
    ({ s with file := some (config.getJSON host s.log) }, true)
  else (s, false)

/-- `Base::reload`. -/
def reload (s : Base) (json : Json) (writable : Bool) : Base × Bool :=
  let reader := Reader.ofValue json
  if reader.isEmpty then (s, false)
  else
    let ((config, log), ok) := (Config.new host).read host s.log reader s.config.fileName
    let s := { s with log }
    if !ok then (s, false)
    else
      let (s, saved) := s.save host config writable
      if config.isWatch && s.watcher && saved then (s, true) else (s.replace config, true)

/-- `JsonChain::fileName`, which is set once the file could be parsed. -/
def chainFileName (s : Base) (fileName : CString) : CString :=
  if s.file.isSome then fileName else none

/-- `Base::onFileChanged`, and whether the configuration was replaced. -/
def onFileChanged (s : Base) (fileName : CString) : Base × Bool :=
  let ((config, log), ok) := (Config.new host).read host s.log (Reader.ofFile s.file)
    (s.chainFileName fileName)
  let s := { s with log }
  if !ok then (s, false) else (s.replace config, true)

/-- What makes the process read a configuration. -/
inductive Call
  | reload (json : Json) (writable : Bool)
  | fileChanged (fileName : CString)

/-- The call, and whether the configuration was taken. -/
def call (s : Base) : Call → Base × Bool
  | .reload json writable => s.reload host json writable
  | .fileChanged fileName => s.onFileChanged host fileName

/-- What a call reads. -/
def reader (s : Base) : Call → Reader
  | .reload json _ => .ofValue json
  | .fileChanged _ => .ofFile s.file

/-! ## Rejected configurations -/

variable {host} {s : Base} {log : Log} {r : Reader} {fileName : CString}

/-- There is an active pool among those that are read. -/
def HasPool (r : Reader) : Prop := 0 < (PoolSettings.new.load r).active

omit [Features] in
theorem readApi_pools (c : Config) (api : Json) : (c.readApi api).pools = c.pools := by
  unfold Config.readApi
  split <;> rfl

variable (host log fileName) in
/-- What comes of reading into a fresh object: nothing of an empty reader, else the log is set
whether there is a pool or not. -/
theorem read_empty (hr : r = []) : ((Config.new host).read host log r fileName).1.2 = log ∧
    ((Config.new host).read host log r fileName).2 = false := by
  subst hr
  exact ⟨rfl, rfl⟩

variable (host log fileName) in
theorem read_nonempty (hr : r ≠ []) :
    ((Config.new host).read host log r fileName).1.2 = readLog log r ∧
      (((Config.new host).read host log r fileName).2 = true ↔ HasPool r) := by
  have hbase : ((Config.new host).readBase host log r fileName).1.2 = readLog log r ∧
      (((Config.new host).readBase host log r fileName).2 = true ↔ HasPool r) := by
    unfold Config.readBase
    dsimp only
    rw [if_neg (by simpa using hr)]
    simp only [readApi_pools, decide_eq_true_eq]
    exact ⟨rfl, Iff.rfl⟩
  obtain ⟨hlog, hok⟩ := hbase
  unfold Config.read
  rcases hread : (Config.new host).readBase host log r fileName with ⟨⟨c, log'⟩, ok⟩
  rw [hread] at hlog hok
  cases ok with
  | true => exact ⟨hlog, hok⟩
  | false => exact ⟨hlog, hok⟩

variable (host) in
/-- A configuration that is taken was read from something that has a pool; one that is not
leaves the log as it was set on the way. -/
theorem call_cases (s : Base) (c : Call) :
    (s.reader c = [] ∧ s.call host c = (s, false)) ∨
    (s.reader c ≠ [] ∧ ¬ HasPool (s.reader c) ∧
      s.call host c = ({ s with log := readLog s.log (s.reader c) }, false)) ∨
    (HasPool (s.reader c) ∧ (s.call host c).2 = true) := by
  by_cases hr : s.reader c = []
  · refine .inl ⟨hr, ?_⟩
    cases c with
    | reload json writable =>
        have hempty : (Reader.ofValue json).isEmpty = true := List.isEmpty_iff.mpr hr
        rw [call, reload, if_pos hempty]
    | fileChanged fileName =>
        obtain ⟨hlog, hok⟩ := read_empty host s.log (s.chainFileName fileName) hr
        rcases hread : (Config.new host).read host s.log (Reader.ofFile s.file)
          (s.chainFileName fileName) with ⟨⟨config, log⟩, ok⟩
        rw [reader, hread] at hlog hok
        obtain ⟨rfl, rfl⟩ : log = s.log ∧ ok = false := ⟨hlog, hok⟩
        simp only [call, onFileChanged, hread]
        rfl
  · refine .inr ?_
    cases c with
    | reload json writable =>
        have hempty : ¬ (Reader.ofValue json).isEmpty = true := fun h => hr (List.isEmpty_iff.mp h)
        obtain ⟨hlog, hok⟩ := read_nonempty host s.log s.config.fileName hr
        rcases hread : (Config.new host).read host s.log (Reader.ofValue json) s.config.fileName
          with ⟨⟨config, log⟩, ok⟩
        rw [reader, hread] at hlog hok
        simp only [call, reload, reader, if_neg hempty, hread]
        cases ok with
        | false => exact .inl ⟨hr, fun h => Bool.false_ne_true (hok.mpr h), by rw [← hlog]; rfl⟩
        | true =>
            refine .inr ⟨hok.mp rfl, ?_⟩
            simp only [Bool.not_true, Bool.false_eq_true, if_false]
            split <;> rfl
    | fileChanged fileName =>
        obtain ⟨hlog, hok⟩ := read_nonempty host s.log (s.chainFileName fileName) hr
        rcases hread : (Config.new host).read host s.log (Reader.ofFile s.file)
          (s.chainFileName fileName) with ⟨⟨config, log⟩, ok⟩
        rw [reader, hread] at hlog hok
        simp only [call, onFileChanged, reader, hread]
        cases ok with
        | false => exact .inl ⟨hr, fun h => Bool.false_ne_true (hok.mpr h), by rw [← hlog]; rfl⟩
        | true => exact .inr ⟨hok.mp rfl, rfl⟩

variable (host) in
/-- A rejected configuration changes nothing just when it does not set the log to something
else. -/
theorem rejected_iff (s : Base) (c : Call) :
    ((s.call host c).2 = false → (s.call host c).1 = s) ↔
      s.reader c = [] ∨ HasPool (s.reader c) ∨ SameLog s.log (s.reader c) := by
  obtain ⟨hempty, hcall⟩ | ⟨hempty, hpool, hcall⟩ | ⟨hpool, hcall⟩ := call_cases host s c
  · exact iff_of_true (fun _ => by rw [hcall]) (.inl hempty)
  · rw [hcall, or_iff_right hempty, or_iff_right hpool, ← readLog_eq_iff]
    constructor
    · intro h
      exact congrArg Base.log (h rfl)
    · intro h _
      rw [h]
  · exact iff_of_true (fun h => absurd (hcall.symm.trans h) (by decide))
      (.inr (.inl hpool))

end

/-- A host without anything special. -/
def plainHost : Host where
  cpu := ⟨true, 1, 0, fun _ _ => []⟩
  rx := ⟨false, false, true, true⟩
  gen _ := false

/-- A process that colours its log. -/
def coloured : Base where
  config := .new plainHost
  log := ⟨true, 0⟩
  file := none
  watcher := false
  announced := []

/-- A request that only turns colours off is rejected, for it has no pool; they are off then. -/
theorem uncoloured : ¬ ∀ (host : Host) (s : Base) (c : Call),
    (s.call host c).2 = false → (s.call host c).1 = s := by
  intro h
  have hrun := h plainHost coloured
    (.reload (.object [(bytes "colors", .bool false)]) true) (by decide +kernel)
  have hcolors := congrArg (fun s : Base => s.log.colors) hrun
  revert hcolors
  decide +kernel

end Base

end XLArig
