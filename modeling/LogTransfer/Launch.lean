import LogTransfer.ConfigText
import LogTransfer.Session

/-!
# The start of the server

The command line comes before the configuration file, and the file before the
built-in values. Whatever they say, the ring that the session manager is given
for the chunk size has between 4 and 64 slots and fits its budget.
-/

set_option autoImplicit false

namespace LogTransfer.App

section CommandLines

structure CommandLine where
  configPath : Bytes
  daemonize : Bool
  hasPort : Bool
  port : ℕ
  helpRequested : Bool
  deriving DecidableEq, Repr

def CommandLine.initial : CommandLine :=
  { configPath := bytesOf "./server.conf", daemonize := false, hasPort := false, port := 0,
    helpRequested := false }

def parseArgs : CommandLine → List Bytes → Except Bytes CommandLine
  | out, [] => .ok out
  | out, arg::rest =>
    if arg = bytesOf "-h" ∨ arg = bytesOf "--help" then .ok { out with helpRequested := true }
    else if arg = bytesOf "-d" then parseArgs { out with daemonize := true } rest
    else if arg = bytesOf "-p" then
      match rest with
      | [] => .error (bytesOf "-p requires a port number")
      | value::rest => do
        let port ← applyPort value
        parseArgs { out with port := port, hasPort := true } rest
    else if arg = bytesOf "-c" then
      match rest with
      | [] => .error (bytesOf "-c requires a config file path")
      | value::rest =>
        if value.isEmpty then .error (bytesOf "-c requires a non-empty path")
        else parseArgs { out with configPath := value } rest
    else .error (bytesOf "unknown argument: " ++ quoted arg)

/-- The first argument is the name of the program. -/
def parseCommandLine (argv : List Bytes) : Except Bytes CommandLine :=
  parseArgs CommandLine.initial argv.tail

/-- The built-in values, with the path of the file that may replace them. -/
def ServerConfig.defaults (path : Bytes) : ServerConfig :=
  { ServerConfig.initial with configPath := path }

/-- The file system gives the content of a file that can be opened. -/
def readFile (files : Bytes → Option Bytes) (path : Bytes) : Except Bytes ServerConfig :=
  match files path with
  | none => .ok (ServerConfig.defaults path)
  | some text =>
    (parseConfigText text (ServerConfig.defaults path)).mapError
      (bytesOf "config file " ++ quoted path ++ bytesOf ": " ++ ·)

def buildConfig (files : Bytes → Option Bytes) (cli : CommandLine) : Except Bytes ServerConfig := do
  let out ← readFile files cli.configPath
  pure { out with
    daemonize := cli.daemonize
    port := if cli.hasPort then cli.port else out.port }

def usageText : Bytes :=
  bytesOf "Usage: server [-d] [-p PORT] [-c CONFIG]\n" ++
    bytesOf "  -d           run as a daemon (double-fork, detach from terminal)\n" ++
    bytesOf "  -p PORT      listen port (default: " ++ decimal kDefaultPort ++ bytesOf ")\n" ++
    bytesOf "  -c CONFIG    config file path (default: ./server.conf)\n" ++
    bytesOf "  -h, --help   show this message\n"

inductive Launch where
  | failed (stderr : Bytes)
  | usage (stdout : Bytes)
  | started (config : ServerConfig)
  deriving DecidableEq, Repr

/-- The beginning of `main`. -/
def launch (files : Bytes → Option Bytes) (argv : List Bytes) : Launch :=
  match parseCommandLine argv with
  | .error e => .failed (bytesOf "error: " ++ e ++ bytesOf "\n\n" ++ usageText)
  | .ok cli =>
    if cli.helpRequested then .usage usageText
    else match buildConfig files cli with
      | .error e => .failed (bytesOf "error: " ++ e ++ bytesOf "\n")
      | .ok config => .started config

end CommandLines

section Ring

def kDefaultSlotCount : ℕ := 64
def kRingBudgetBytes : ℕ := 4 * 1024 * 1024
def kMinSlotCount : ℕ := 4

def ringSlotCountFor (slotSize : ℕ) : ℕ :=
  if slotSize = 0 then kDefaultSlotCount
  else
    let withinBudget := kRingBudgetBytes / slotSize
    if withinBudget < kMinSlotCount then kMinSlotCount
    else if withinBudget < kDefaultSlotCount then withinBudget else kDefaultSlotCount

/-- As many slots as the budget pays for, within the two bounds. -/
theorem ringSlotCountFor_eq {slotSize : ℕ} (h : 0 < slotSize) :
    ringSlotCountFor slotSize =
      max kMinSlotCount (min (kRingBudgetBytes / slotSize) kDefaultSlotCount) := by
  have hbounds : kMinSlotCount ≤ kDefaultSlotCount := by decide
  unfold ringSlotCountFor
  rw [if_neg (by omega)]
  dsimp only
  split
  · omega
  · split <;> omega

theorem ringSlotCountFor_bounds (slotSize : ℕ) :
    kMinSlotCount ≤ ringSlotCountFor slotSize ∧ ringSlotCountFor slotSize ≤ kDefaultSlotCount := by
  have hbounds : kMinSlotCount ≤ kDefaultSlotCount := by decide
  rcases Nat.eq_zero_or_pos slotSize with rfl | hpos
  · exact ⟨hbounds, le_refl _⟩
  · rw [ringSlotCountFor_eq hpos]
    omega

/-- The least number of slots fits as long as a slot is a quarter of the budget
at most. -/
theorem ringSlotCountFor_budget {slotSize : ℕ} (h : 0 < slotSize)
    (hmax : kMinSlotCount * slotSize ≤ kRingBudgetBytes) :
    ringSlotCountFor slotSize * slotSize ≤ kRingBudgetBytes := by
  rw [ringSlotCountFor_eq h]
  rcases Nat.le_total kMinSlotCount (min (kRingBudgetBytes / slotSize) kDefaultSlotCount) with
    hle | hle
  · rw [Nat.max_eq_right hle]
    calc min (kRingBudgetBytes / slotSize) kDefaultSlotCount * slotSize
        ≤ kRingBudgetBytes / slotSize * slotSize := Nat.mul_le_mul_right _ (Nat.min_le_left _ _)
      _ ≤ kRingBudgetBytes := Nat.div_mul_le_self _ _
  · rw [Nat.max_eq_left hle]
    exact hmax

end Ring

section Options

inductive CliOption where
  | help
  | daemon
  | port (value : Bytes)
  | config (path : Bytes)
  | stray (arg : Bytes)
  deriving DecidableEq, Repr

namespace CliOption

def ofFlag (arg : Bytes) : CliOption :=
  if arg = bytesOf "-h" ∨ arg = bytesOf "--help" then .help
  else if arg = bytesOf "-d" then .daemon
  else .stray arg

/-- The options that take a value take the next argument, whatever it is. -/
def options : List Bytes → List CliOption
  | [] => []
  | arg::rest =>
    if arg = bytesOf "-p" then
      match rest with
      | [] => [.stray arg]
      | value::rest => .port value :: options rest
    else if arg = bytesOf "-c" then
      match rest with
      | [] => [.stray arg]
      | value::rest => .config value :: options rest
    else ofFlag arg :: options rest

/-- Nothing is read behind a request for help. -/
def read (os : List CliOption) : List CliOption := os.takeWhile (· ≠ .help)

def port? : CliOption → Option Bytes
  | .port value => some value
  | _ => none

def Proper : CliOption → Prop
  | .help | .daemon => True
  | .port value => ∃ number, NumberIn value 1024 65535 number
  | .config path => path ≠ []
  | .stray _ => False

def write (out : CommandLine) : CliOption → CommandLine
  | .help => { out with helpRequested := true }
  | .daemon => { out with daemonize := true }
  | .port value => { out with port := digitsValue value, hasPort := true }
  | .config path => { out with configPath := path }
  | .stray _ => out

end CliOption

open CliOption

variable {out cli : CommandLine}

theorem read_cons {o : CliOption} (h : o ≠ .help) (os : List CliOption) :
    read (o :: os) = o :: read os := List.takeWhile_cons_of_pos (by simpa using h)

theorem read_help (os : List CliOption) : read (.help :: os) = [] :=
  List.takeWhile_cons_of_neg (by simp)

/-- What the arguments are read as. -/
structure ReadAs (out : CommandLine) (os : List CliOption) (cli : CommandLine) : Prop where
  proper : ∀ o ∈ read os, o.Proper
  written : { cli with helpRequested := out.helpRequested } = (read os).foldl write out
  help : cli.helpRequested = true ↔ out.helpRequested = true ∨ CliOption.help ∈ os

theorem readAs_cons {o : CliOption} {os : List CliOption} (ho : o ≠ .help)
    (hsame : (write out o).helpRequested = out.helpRequested) :
    ReadAs out (o :: os) cli ↔ o.Proper ∧ ReadAs (write out o) os cli := by
  have hmem : CliOption.help ∈ o :: os ↔ CliOption.help ∈ os := by
    rw [List.mem_cons, or_iff_right (Ne.symm ho)]
  constructor
  · rintro ⟨hproper, hwritten, hhelp⟩
    rw [read_cons ho] at hproper hwritten
    obtain ⟨hhead, htail⟩ := List.forall_mem_cons.mp hproper
    exact ⟨hhead, htail, hsame ▸ hwritten, by rw [hsame, hhelp, hmem]⟩
  · rintro ⟨hhead, hproper, hwritten, hhelp⟩
    refine ⟨?_, ?_, ?_⟩
    · rw [read_cons ho]
      exact List.forall_mem_cons.mpr ⟨hhead, hproper⟩
    · rw [read_cons ho, List.foldl_cons, ← hsame]
      exact hwritten
    · rw [hhelp, hsame, hmem]

theorem readAs_help (os : List CliOption) :
    ReadAs out (.help :: os) cli ↔ cli = { out with helpRequested := true } := by
  constructor
  · rintro ⟨-, hwritten, hhelp⟩
    have hrequested := hhelp.mpr (.inr List.mem_cons_self)
    rw [read_help, List.foldl_nil] at hwritten
    rw [← hwritten, ← hrequested]
  · rintro rfl
    exact ⟨by simp [read_help], by simp [read_help], by simp⟩

theorem readAs_nil : ReadAs out [] cli ↔ cli = out := by
  constructor
  · rintro ⟨-, hwritten, hhelp⟩
    have hrequested : cli.helpRequested = out.helpRequested := by
      rw [Bool.eq_iff_iff, hhelp]
      simp
    have hwritten : { cli with helpRequested := out.helpRequested } = out := hwritten
    rw [← hwritten, ← hrequested]
  · rintro rfl
    exact ⟨fun _ h => absurd h List.not_mem_nil, rfl, by simp⟩

theorem readAs_stray (arg : Bytes) (os : List CliOption) : ¬ ReadAs out (.stray arg :: os) cli := by
  intro h
  exact ((readAs_cons (by simp) rfl).mp h).1

theorem options_flag {arg : Bytes} (hp : arg ≠ bytesOf "-p") (hc : arg ≠ bytesOf "-c")
    (rest : List Bytes) : options (arg :: rest) = ofFlag arg :: options rest := by
  rw [options.eq_def]
  dsimp only
  rw [if_neg hp, if_neg hc]

theorem options_port (value : Bytes) (rest : List Bytes) :
    options (bytesOf "-p" :: value :: rest) = .port value :: options rest := by
  rw [options, if_pos rfl]

theorem options_config (path : Bytes) (rest : List Bytes) :
    options (bytesOf "-c" :: path :: rest) = .config path :: options rest := by
  rw [options, if_neg (by decide), if_pos rfl]

theorem ofFlag_help {arg : Bytes} (h : arg = bytesOf "-h" ∨ arg = bytesOf "--help") :
    ofFlag arg = .help := if_pos h

/-- The arguments are accepted exactly as the options they spell, up to a
request for help. -/
theorem parseArgs_ok (args : List Bytes) :
    parseArgs out args = .ok cli ↔ ReadAs out (options args) cli := by
  fun_induction parseArgs out args with
  | case1 out =>
    rw [options, readAs_nil]
    exact ⟨fun h => (Except.ok.inj h).symm, fun h => congrArg _ h.symm⟩
  | case2 out arg rest hhelp =>
    have hp : arg ≠ bytesOf "-p" := by
      rintro rfl
      exact absurd hhelp (by decide)
    have hc : arg ≠ bytesOf "-c" := by
      rintro rfl
      exact absurd hhelp (by decide)
    rw [options_flag hp hc, ofFlag_help hhelp, readAs_help]
    exact ⟨fun h => (Except.ok.inj h).symm, fun h => congrArg _ h.symm⟩
  | case3 out rest _ ih =>
    have hflag : ofFlag (bytesOf "-d") = .daemon := by decide
    rw [options_flag (by decide) (by decide), hflag, readAs_cons (by simp) rfl, ih]
    exact (and_iff_right trivial).symm
  | case4 out =>
    have hlone : options [bytesOf "-p"] = [.stray (bytesOf "-p")] := by decide
    rw [hlone]
    exact iff_of_false nofun (readAs_stray _ _)
  | case5 out value rest _ _ ih =>
    rw [options_port, readAs_cons (by simp) rfl]
    constructor
    · intro h
      obtain ⟨port, hport, hrest⟩ := bind_ok h
      have hnumber := applyPort_ok.mp hport
      refine ⟨⟨port, hnumber⟩, ?_⟩
      rw [write, hnumber.value]
      exact (ih port).mp hrest
    · rintro ⟨⟨port, hnumber⟩, hrest⟩
      rw [write, hnumber.value] at hrest
      rw [LogLineParser.ok_bind (applyPort_ok.mpr hnumber)]
      exact (ih port).mpr hrest
  | case6 out =>
    have hlone : options [bytesOf "-c"] = [.stray (bytesOf "-c")] := by decide
    rw [hlone]
    exact iff_of_false nofun (readAs_stray _ _)
  | case7 out value rest hempty =>
    rw [options_config, readAs_cons (by simp) rfl]
    refine iff_of_false nofun ?_
    rintro ⟨hne, -⟩
    exact hne (List.isEmpty_iff.mp hempty)
  | case8 out value rest hfilled _ _ _ ih =>
    have hne : value ≠ [] := fun h => hfilled (List.isEmpty_iff.mpr h)
    rw [options_config, readAs_cons (by simp) rfl, ih]
    exact (and_iff_right hne).symm
  | case9 out arg rest hhelp hd hp hc =>
    rw [options_flag hp hc, ofFlag, if_neg hhelp, if_neg hd]
    exact iff_of_false nofun (readAs_stray _ _)

end Options

section Ports

variable {files : Bytes → Option Bytes} {cli : CommandLine} {c : ServerConfig}

/-- The port of the command line, if it names one. -/
def CommandLine.given (cli : CommandLine) : Option ℕ := if cli.hasPort then some cli.port else none

/-- The values behind `-p` that are read. -/
def portValues (argv : List Bytes) : List Bytes :=
  (CliOption.read (CliOption.options argv.tail)).filterMap CliOption.port?

theorem given_last {argv : List Bytes} (h : parseCommandLine argv = .ok cli) :
    cli.given = (portValues argv).getLast?.map digitsValue := by
  have hread := (parseArgs_ok argv.tail).mp h
  have hlast := last_write CliOption.write CommandLine.given
    (fun o => o.port?.map fun value => some (digitsValue value)) (fun out o => by cases o <;> rfl)
    (CliOption.read (CliOption.options argv.tail)) CommandLine.initial
  rw [← hread.written] at hlast
  have hgiven : CommandLine.initial.given = none := rfl
  rw [hgiven] at hlast
  refine Eq.trans (show cli.given = _ from hlast) ?_
  unfold portValues
  rw [← List.map_filterMap, List.getLast?_map]
  cases ((CliOption.read (CliOption.options argv.tail)).filterMap CliOption.port?).getLast? <;> rfl

theorem given_range {argv : List Bytes} (h : parseCommandLine argv = .ok cli) {port : ℕ}
    (hport : cli.given = some port) : kMinPort ≤ port ∧ port ≤ 65535 := by
  have hread := (parseArgs_ok argv.tail).mp h
  rw [given_last h] at hport
  obtain ⟨value, hvalue, rfl⟩ := Option.map_eq_some_iff.mp hport
  obtain ⟨o, ho, hpick⟩ := List.mem_filterMap.mp (List.mem_of_getLast? hvalue)
  have hproper := hread.proper o ho
  cases o with
  | port value' =>
    cases hpick
    obtain ⟨number, hnumber⟩ := hproper
    rw [hnumber.value]
    exact hnumber.range
  | _ => cases hpick

/-- Unless help is asked for, every `-p` is read. -/
theorem portValues_all {argv : List Bytes} (h : parseCommandLine argv = .ok cli)
    (hhelp : cli.helpRequested = false) :
    portValues argv = (CliOption.options argv.tail).filterMap CliOption.port? := by
  have hread := (parseArgs_ok argv.tail).mp h
  have hnone : CliOption.help ∉ CliOption.options argv.tail := by
    intro hmem
    rw [hread.help.mpr (.inr hmem)] at hhelp
    cases hhelp
  have hwhole : CliOption.read (CliOption.options argv.tail) = CliOption.options argv.tail := by
    refine List.takeWhile_eq_self_iff.mpr fun o ho => decide_eq_true ?_
    rintro rfl
    exact hnone ho
  rw [portValues, hwhole]

theorem buildConfig_ok :
    buildConfig files cli = .ok c ↔ ∃ file, readFile files cli.configPath = .ok file ∧
      c = { file with daemonize := cli.daemonize
                      port := cli.given.getD file.port } := by
  have hport (file : ServerConfig) :
      (if cli.hasPort then cli.port else file.port) = cli.given.getD file.port := by
    unfold CommandLine.given
    split <;> rfl
  simp only [← hport]
  exact pure_bind_ok

end Ports

section Checks

/-- Every field has passed the check of its key. -/
structure Checked (c : ServerConfig) : Prop where
  port : kMinPort ≤ c.port ∧ c.port ≤ 65535
  chunkSize : kMinChunkSize ≤ c.chunkSize ∧ c.chunkSize ≤ kMaxChunkSize
  sendBufferSize : c.sendBufferSize = 0 ∨
    kMinSendBufferSize ≤ c.sendBufferSize ∧ c.sendBufferSize ≤ kMaxSendBufferSize
  logPath : c.logPath ≠ []

variable {files : Bytes → Option Bytes} {cli : CommandLine} {c out : ServerConfig}

theorem checked_defaults (path : Bytes) : Checked (ServerConfig.defaults path) := by
  have hinitial : Checked ServerConfig.initial :=
    ⟨by decide, by decide, .inl rfl, by decide⟩
  exact ⟨hinitial.port, hinitial.chunkSize, hinitial.sendBufferSize, hinitial.logPath⟩

theorem checked_apply {key value : Bytes} {s : Setting} (h : Checked out)
    (hs : Assigns key value s) : Checked (s.apply out) := by
  cases s with
  | port n => exact ⟨hs.2.range, h.chunkSize, h.sendBufferSize, h.logPath⟩
  | chunkSize n => exact ⟨h.port, hs.2.range, h.sendBufferSize, h.logPath⟩
  | sendBufferSize n =>
    refine ⟨h.port, h.chunkSize, ?_, h.logPath⟩
    rcases hs.2 with hzero | hrange
    · exact .inl (Nat.le_zero.mp hzero.range.2)
    · exact .inr hrange.range
  | logPath path => exact ⟨h.port, h.chunkSize, h.sendBufferSize, hs.2.2 ▸ hs.2.1⟩

theorem checked_foldl {lines : List Bytes} {ss : List Setting}
    (hss : List.Forall₂ LineSets lines ss) (h : Checked out) :
    Checked (ss.foldl Setting.apply out) := by
  induction hss generalizing out with
  | nil => exact h
  | cons hs _ ih =>
    obtain ⟨_, _, -, -, hassigns⟩ := hs
    exact ih (checked_apply h hassigns)

theorem checked_parse {text : Bytes} (h : Checked out) (hc : parseConfigText text out = .ok c) :
    Checked c := by
  obtain ⟨ss, hss, rfl⟩ := (parseConfigText_ok text).mp hc
  exact checked_foldl hss h

theorem checked_file {path : Bytes} (h : readFile files path = .ok c) : Checked c := by
  unfold readFile at h
  split at h
  · cases h
    exact checked_defaults path
  · exact checked_parse (checked_defaults path) (mapError_ok.mp h)

theorem checked_build {argv : List Bytes} (hcli : parseCommandLine argv = .ok cli)
    (h : buildConfig files cli = .ok c) : Checked c := by
  obtain ⟨file, hfile, rfl⟩ := buildConfig_ok.mp h
  have hchecked := checked_file hfile
  refine ⟨?_, hchecked.chunkSize, hchecked.sendBufferSize, hchecked.logPath⟩
  change kMinPort ≤ cli.given.getD file.port ∧ cli.given.getD file.port ≤ 65535
  cases hgiven : cli.given with
  | none => exact hchecked.port
  | some port => exact given_range hcli hgiven

/-- What the session manager is given. -/
def sessionConfig (c : ServerConfig) (h : Checked c) : LogTransfer.ServerConfig where
  chunkSize := c.chunkSize
  ringSlots := ringSlotCountFor c.chunkSize
  idleMs := 30000
  responseMs := 120000
  chunk_pos := lt_of_lt_of_le (by decide) h.chunkSize.1
  slots_pos := lt_of_lt_of_le (by decide) (ringSlotCountFor_bounds c.chunkSize).1

structure RingFits (slots chunkSize : ℕ) : Prop where
  least : 4 ≤ slots
  most : slots ≤ 64
  budget : slots * chunkSize ≤ 4 * 1024 * 1024

theorem ring_fits (h : Checked c) : RingFits (ringSlotCountFor c.chunkSize) c.chunkSize := by
  obtain ⟨hmin, hmax⟩ := h.chunkSize
  have hpos : 0 < kMinChunkSize := by decide
  have hquarter : kMinSlotCount * c.chunkSize ≤ kRingBudgetBytes :=
    (Nat.mul_le_mul_left _ hmax).trans (by decide)
  obtain ⟨hlow, hhigh⟩ := ringSlotCountFor_bounds c.chunkSize
  exact ⟨hlow, hhigh, ringSlotCountFor_budget (hpos.trans_le hmin) hquarter⟩

end Checks

/-- A configuration text is accepted exactly when its significant lines are
assignments, and the last one of a key counts; a port on the command line comes
before the file's; and every accepted chunk size has a ring within the budget. -/
theorem config_accepted (files : Bytes → Option Bytes) :
    (∀ text path,
      ((∃ c, parseConfigText text (ServerConfig.defaults path) = .ok c) ↔
        ∀ line ∈ significant text, ∃ s, LineSets line s) ∧
      ∀ c, parseConfigText text (ServerConfig.defaults path) = .ok c →
        (∃ ss, List.Forall₂ LineSets (significant text) ss ∧
          LastOf ss (ServerConfig.defaults path) c) ∧
        RingFits (ringSlotCountFor c.chunkSize) c.chunkSize) ∧
    ∀ argv cli c, parseCommandLine argv = .ok cli → buildConfig files cli = .ok c →
      (∃ file, readFile files cli.configPath = .ok file ∧
        c.port = ((portValues argv).getLast?.map digitsValue).getD file.port) ∧
      (cli.helpRequested = false →
        portValues argv = (CliOption.options argv.tail).filterMap CliOption.port?) ∧
      RingFits (ringSlotCountFor c.chunkSize) c.chunkSize := by
  refine ⟨fun text path => ⟨parseConfigText_isOk text _, fun c hc => ⟨?_, ?_⟩⟩, ?_⟩
  · obtain ⟨ss, hss, rfl⟩ := (parseConfigText_ok text).mp hc
    exact ⟨ss, hss, lastOf_foldl ss _⟩
  · exact ring_fits (checked_parse (checked_defaults path) hc)
  · intro argv cli c hcli hbuild
    have hfits := ring_fits (checked_build hcli hbuild)
    obtain ⟨file, hfile, rfl⟩ := buildConfig_ok.mp hbuild
    refine ⟨⟨file, hfile, ?_⟩, portValues_all hcli, hfits⟩
    rw [given_last hcli]

/-- A file with DOS line endings, the largest chunks and an equals sign in a path. -/
theorem config_accepted_crlf : ∃ c,
    parseConfigText (bytesOf "chunk_size = 1048576\r\n\r\nlog_path=a=b\r\n")
      (ServerConfig.defaults []) = .ok c ∧ c.logPath = bytesOf "a=b" ∧
    RingFits (ringSlotCountFor c.chunkSize) c.chunkSize := by
  have hread : parseConfigText (bytesOf "chunk_size = 1048576\r\n\r\nlog_path=a=b\r\n")
      (ServerConfig.defaults []) = .ok { ServerConfig.defaults [] with
        chunkSize := 1048576, logPath := bytesOf "a=b" } := by decide
  exact ⟨_, hread, rfl, (((config_accepted fun _ => none).1 _ _).2 _ hread).2⟩

/-- What the server runs with has passed every check, and its parser's ring is
within the budget. -/
theorem launched_checked {files : Bytes → Option Bytes} {argv : List Bytes} {c : ServerConfig}
    (h : launch files argv = .started c) : ∃ hc : Checked c,
      (sessionConfig c hc).ringSlots * (sessionConfig c hc).chunkSize ≤ kRingBudgetBytes := by
  unfold launch at h
  split at h
  · cases h
  · rename_i cli hcli
    split at h
    · cases h
    · split at h
      · cases h
      · rename_i config hbuild
        cases h
        have hchecked := checked_build hcli hbuild
        exact ⟨hchecked, (ring_fits hchecked).budget⟩

end LogTransfer.App
