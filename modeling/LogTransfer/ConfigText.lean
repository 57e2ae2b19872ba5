import LogTransfer.Acceptance
import LogTransfer.TokenScan
import LogTransfer.Stats

/-!
# The configuration file of the server

`parseConfigText` reads a text line by line and gives up at the first line that
is not an assignment. A text is read exactly when each of its significant lines
sets a known key to a value in range, and then every field has what the last
line on it says.
-/

set_option autoImplicit false

namespace LogTransfer.App

def kDefaultPort : ℕ := 23507
def kMinPort : ℕ := 1024
def kMinChunkSize : ℕ := 4 * 1024
def kMaxChunkSize : ℕ := 1024 * 1024
def kMinSendBufferSize : ℕ := 8 * 1024
def kMaxSendBufferSize : ℕ := 16 * 1024 * 1024
def kUint64Max : ℕ := 18446744073709551615

structure ServerConfig where
  port : ℕ
  daemonize : Bool
  chunkSize : ℕ
  sendBufferSize : ℕ
  logPath : Bytes
  configPath : Bytes
  deriving DecidableEq, Repr

def ServerConfig.initial : ServerConfig :=
  { port := kDefaultPort, daemonize := false, chunkSize := 64 * 1024, sendBufferSize := 0,
    logPath := bytesOf "./server.log", configPath := bytesOf "./server.conf" }

section Values

def isSpace (b : Byte) : Bool := b = ch ' ' || b = ch '\t' || b = carriageReturn

def trim (text : Bytes) : Bytes :=
  ((text.dropWhile isSpace).reverse.dropWhile isSpace).reverse

def quoted (text : Bytes) : Bytes := bytesOf "'" ++ text ++ bytesOf "'"

/-- `from_chars`, asked to read the whole token. -/
def parseUnsigned (token : Bytes) : Option ℕ :=
  let digits := token.takeWhile isDigit
  if digits.isEmpty then none
  else if digitsValue digits > kUint64Max then none
  else if digits.length ≠ token.length then none
  else some (digitsValue digits)

def applyPort (value : Bytes) : Except Bytes ℕ :=
  match parseUnsigned value with
  | none => .error (bytesOf "invalid port: " ++ quoted value ++ bytesOf " (expected a number)")
  | some number =>
    if number < kMinPort || number > 65535 then
      .error (bytesOf "port out of range: " ++ value ++ bytesOf " (allowed " ++ decimal kMinPort ++
        bytesOf "-65535; below " ++ decimal kMinPort ++ bytesOf " requires root to bind)")
    else .ok number

def applySize (value : Bytes) (least most : ℕ) (name : Bytes) (allowZero : Bool) :
    Except Bytes ℕ :=
  match parseUnsigned value with
  | none =>
    .error (bytesOf "invalid " ++ name ++ bytesOf ": " ++ quoted value ++
      bytesOf " (expected a number)")
  | some number =>
    if allowZero && number = 0 then .ok 0
    else if number < least || number > most then
      .error (name ++ bytesOf " out of range: " ++ value ++ bytesOf " (allowed " ++
        decimal least ++ bytesOf "-" ++ decimal most ++
        (if allowZero then bytesOf ", or 0 for kernel autotuning)" else bytesOf ")"))
    else .ok number

end Values

section Lines

def atLine (number : ℕ) : Bytes := bytesOf " (line " ++ decimal number ++ bytesOf ")"

/-- The choice by the key; the place is added to its errors. -/
def assign (out : ServerConfig) (key value : Bytes) : Except Bytes ServerConfig :=
  if key = bytesOf "port" then do
    let port ← applyPort value
    pure { out with port := port }
  else if key = bytesOf "chunk_size" then do
    let size ← applySize value kMinChunkSize kMaxChunkSize (bytesOf "chunk_size") false
    pure { out with chunkSize := size }
  else if key = bytesOf "snd_buf_size" then do
    let size ← applySize value kMinSendBufferSize kMaxSendBufferSize (bytesOf "snd_buf_size") true
    pure { out with sendBufferSize := size }
  else if key = bytesOf "log_path" then pure { out with logPath := value }
  else .error (bytesOf "unknown config key: " ++ quoted key)

def parseLine (out : ServerConfig) (number : ℕ) (line : Bytes) : Except Bytes ServerConfig :=
  if line.all (· ≠ ch '=') then
    .error (bytesOf "missing '=' in config" ++ atLine number ++ bytesOf ": " ++ quoted line)
  else
    let key := trim (line.takeWhile (· ≠ ch '='))
    let value := trim (line.dropWhile (· ≠ ch '=')).tail
    if key.isEmpty then .error (bytesOf "empty key in config" ++ atLine number)
    else if value.isEmpty then
      .error (bytesOf "empty value for " ++ quoted key ++ atLine number)
    else (assign out key value).mapError (· ++ atLine number)

/-- A trimmed line that is read: neither blank nor a comment. -/
def counts (line : Bytes) : Bool := !line.isEmpty && line.head? ≠ some (ch '#')

-- `number` counts the lines before.
def parseLines : ServerConfig → ℕ → List Bytes → Except Bytes ServerConfig
  | out, _, [] => .ok out
  | out, number, rawLine::rest =>
    if counts (trim rawLine) then do
      let out ← parseLine out (number + 1) (trim rawLine)
      parseLines out (number + 1) rest
    else parseLines out (number + 1) rest

/-- What `getline` gives: after the last newline there is a line only if it is
not empty. -/
def getLines (text : Bytes) : List Bytes :=
  let lines := text.splitOn newline
  if lines.getLast? = some [] then lines.dropLast else lines

def parseConfigText (text : Bytes) (out : ServerConfig) : Except Bytes ServerConfig :=
  parseLines out 0 (getLines text)

end Lines

section Settings

inductive Setting where
  | port (number : ℕ)
  | chunkSize (size : ℕ)
  | sendBufferSize (size : ℕ)
  | logPath (path : Bytes)
  deriving DecidableEq, Repr

namespace Setting

def apply (out : ServerConfig) : Setting → ServerConfig
  | .port number => { out with port := number }
  | .chunkSize size => { out with chunkSize := size }
  | .sendBufferSize size => { out with sendBufferSize := size }
  | .logPath path => { out with logPath := path }

def port? : Setting → Option ℕ
  | .port number => some number
  | _ => none

def chunkSize? : Setting → Option ℕ
  | .chunkSize size => some size
  | _ => none

def sendBufferSize? : Setting → Option ℕ
  | .sendBufferSize size => some size
  | _ => none

def logPath? : Setting → Option Bytes
  | .logPath path => some path
  | _ => none

end Setting

/-- The token is a decimal number from `least` to `most`, and nothing else. -/
structure NumberIn (token : Bytes) (least most number : ℕ) : Prop where
  digits : DigitString token
  value : digitsValue token = number
  range : least ≤ number ∧ number ≤ most

def Assigns (key value : Bytes) : Setting → Prop
  | .port number => key = bytesOf "port" ∧ NumberIn value 1024 65535 number
  | .chunkSize size =>
    key = bytesOf "chunk_size" ∧ NumberIn value kMinChunkSize kMaxChunkSize size
  | .sendBufferSize size =>
    key = bytesOf "snd_buf_size" ∧ (NumberIn value 0 0 size ∨
      NumberIn value kMinSendBufferSize kMaxSendBufferSize size)
  | .logPath path => key = bytesOf "log_path" ∧ value ≠ [] ∧ path = value

/-- `key=value`, cut at the first equals sign. -/
def LineSets (line : Bytes) (s : Setting) : Prop :=
  ∃ left right, line = left ++ ch '=' :: right ∧ ch '=' ∉ left ∧
    Assigns (trim left) (trim right) s

/-- The trimmed lines of a text that are neither blank nor comments. -/
def significant (text : Bytes) : List Bytes := ((text.splitOn newline).map trim).filter counts

end Settings

section Numbers

variable {token : Bytes} {least most number : ℕ}

theorem parseUnsigned_some :
    parseUnsigned token = some number ↔
      DigitString token ∧ digitsValue token = number ∧ number ≤ kUint64Max := by
  constructor
  · intro h
    unfold parseUnsigned at h
    dsimp only at h
    split_ifs at h with hempty hlarge hpart
    have hwhole : token.takeWhile isDigit = token :=
      (List.takeWhile_prefix isDigit).eq_of_length (not_not.mp hpart)
    rw [hwhole] at hempty hlarge h
    cases h
    refine ⟨⟨by simpa using hempty, ?_⟩, rfl, by omega⟩
    rw [← hwhole]
    exact takeWhile_digits token
  · rintro ⟨⟨hne, hdigits⟩, rfl, hrange⟩
    rw [parseUnsigned, digits_whole hdigits]
    rw [if_neg (by simpa using hne), if_neg (by omega), if_neg (not_not.mpr rfl)]

/-- A number in range is read by `parseUnsigned`, as the ranges end far below
its limit. -/
theorem numberIn_read (h : NumberIn token least most number) (hmost : most ≤ kUint64Max) :
    parseUnsigned token = some number :=
  parseUnsigned_some.mpr ⟨h.digits, h.value, h.range.2.trans hmost⟩

theorem applyPort_ok : applyPort token = .ok number ↔ NumberIn token 1024 65535 number := by
  have hmin : kMinPort = 1024 := rfl
  constructor
  · intro h
    unfold applyPort at h
    split at h
    · cases h
    · rename_i n hread
      obtain ⟨hdigits, hvalue, -⟩ := parseUnsigned_some.mp hread
      split at h
      · cases h
      · rename_i hrange
        cases h
        rw [Bool.or_eq_true, decide_eq_true_eq, decide_eq_true_eq, not_or] at hrange
        exact ⟨hdigits, hvalue, by omega⟩
  · intro h
    have hread := numberIn_read h (by decide)
    have hrange := h.range
    unfold applyPort
    rw [hread]
    dsimp only
    rw [if_neg (by rw [Bool.or_eq_true, decide_eq_true_eq, decide_eq_true_eq]; omega)]

theorem applySize_ok (name : Bytes) (allowZero : Bool) (hmost : most ≤ kUint64Max) :
    applySize token least most name allowZero = .ok number ↔
      allowZero = true ∧ NumberIn token 0 0 number ∨ NumberIn token least most number := by
  constructor
  · intro h
    unfold applySize at h
    split at h
    · cases h
    · rename_i n hread
      obtain ⟨hdigits, hvalue, -⟩ := parseUnsigned_some.mp hread
      split at h
      · rename_i hzero
        cases h
        rw [Bool.and_eq_true, decide_eq_true_eq] at hzero
        exact .inl ⟨hzero.1, hdigits, hvalue.trans hzero.2, le_refl 0, le_refl 0⟩
      · split at h
        · cases h
        · rename_i hrange
          cases h
          rw [Bool.or_eq_true, decide_eq_true_eq, decide_eq_true_eq, not_or] at hrange
          exact .inr ⟨hdigits, hvalue, by omega⟩
  · rintro (⟨hallow, h⟩ | h)
    · have hread := numberIn_read h (Nat.zero_le _)
      have hzero : number = 0 := Nat.le_zero.mp h.range.2
      unfold applySize
      rw [hread, hzero]
      dsimp only
      rw [if_pos (by rw [hallow]; rfl)]
    · have hread := numberIn_read h hmost
      have hrange := h.range
      unfold applySize
      rw [hread]
      dsimp only
      split
      · rename_i hzero
        rw [Bool.and_eq_true, decide_eq_true_eq] at hzero
        rw [hzero.2]
      · rw [if_neg (by rw [Bool.or_eq_true, decide_eq_true_eq, decide_eq_true_eq]; omega)]

end Numbers

section Reading

variable {out c : ServerConfig} {key value line : Bytes}

theorem pure_bind_ok {α : Type} {x : Except Bytes α} {f : α → ServerConfig} :
    (x >>= fun a => pure (f a)) = .ok c ↔ ∃ a, x = .ok a ∧ c = f a := by
  cases x with
  | error e => exact iff_of_false nofun (by rintro ⟨a, ha, -⟩; cases ha)
  | ok a =>
    constructor
    · intro h
      cases h
      exact ⟨a, rfl, rfl⟩
    · rintro ⟨_, ha, rfl⟩
      cases ha
      rfl

theorem chunkSize_ok {size : ℕ} :
    applySize value kMinChunkSize kMaxChunkSize (bytesOf "chunk_size") false = .ok size ↔
      NumberIn value kMinChunkSize kMaxChunkSize size := by
  rw [applySize_ok _ _ (by decide)]
  constructor
  · rintro (⟨hallow, -⟩ | h)
    · cases hallow
    · exact h
  · exact .inr

theorem sendBufferSize_ok {size : ℕ} :
    applySize value kMinSendBufferSize kMaxSendBufferSize (bytesOf "snd_buf_size") true =
        .ok size ↔
      NumberIn value 0 0 size ∨ NumberIn value kMinSendBufferSize kMaxSendBufferSize size := by
  rw [applySize_ok _ _ (by decide)]
  exact or_congr_left (and_iff_right rfl)

/-- What the choice by the key accepts, with a value that is not empty. -/
theorem assign_ok (hne : value ≠ []) :
    assign out key value = .ok c ↔ ∃ s, Assigns key value s ∧ c = s.apply out := by
  constructor
  · intro h
    unfold assign at h
    split at h
    · rename_i hkey
      obtain ⟨n, hn, rfl⟩ := pure_bind_ok.mp h
      exact ⟨.port n, ⟨hkey, applyPort_ok.mp hn⟩, rfl⟩
    · split at h
      · rename_i hkey
        obtain ⟨n, hn, rfl⟩ := pure_bind_ok.mp h
        exact ⟨.chunkSize n, ⟨hkey, chunkSize_ok.mp hn⟩, rfl⟩
      · split at h
        · rename_i hkey
          obtain ⟨n, hn, rfl⟩ := pure_bind_ok.mp h
          exact ⟨.sendBufferSize n, ⟨hkey, sendBufferSize_ok.mp hn⟩, rfl⟩
        · split at h
          · rename_i hkey
            cases h
            exact ⟨.logPath value, ⟨hkey, hne, rfl⟩, rfl⟩
          · cases h
  · rintro ⟨s, hs, rfl⟩
    unfold assign
    cases s with
    | port n =>
      obtain ⟨rfl, hn⟩ := hs
      rw [if_pos rfl]
      exact pure_bind_ok.mpr ⟨n, applyPort_ok.mpr hn, rfl⟩
    | chunkSize n =>
      obtain ⟨rfl, hn⟩ := hs
      rw [if_neg (by decide), if_pos rfl]
      exact pure_bind_ok.mpr ⟨n, chunkSize_ok.mpr hn, rfl⟩
    | sendBufferSize n =>
      obtain ⟨rfl, hn⟩ := hs
      rw [if_neg (by decide), if_neg (by decide), if_pos rfl]
      exact pure_bind_ok.mpr ⟨n, sendBufferSize_ok.mpr hn, rfl⟩
    | logPath path =>
      obtain ⟨rfl, -, rfl⟩ := hs
      rw [if_neg (by decide), if_neg (by decide), if_neg (by decide), if_pos rfl]
      rfl

theorem assigns_filled {s : Setting} (h : Assigns key value s) : key ≠ [] ∧ value ≠ [] := by
  cases s with
  | port n => exact ⟨by rw [h.1]; decide, h.2.digits.filled⟩
  | chunkSize n => exact ⟨by rw [h.1]; decide, h.2.digits.filled⟩
  | sendBufferSize n =>
    exact ⟨by rw [h.1]; decide, h.2.elim (·.digits.filled) (·.digits.filled)⟩
  | logPath path => exact ⟨by rw [h.1]; decide, h.2.1⟩

theorem cut_first {c : Byte} {left : Bytes} (right : Bytes) (h : c ∉ left) :
    (left ++ c :: right).takeWhile (· ≠ c) = left ∧
      ((left ++ c :: right).dropWhile (· ≠ c)).tail = right := by
  have hpass : ∀ b ∈ left, (fun b => decide (b ≠ c)) b = true := by
    intro b hb
    refine decide_eq_true ?_
    rintro rfl
    exact h hb
  constructor
  · rw [List.takeWhile_append_of_pos hpass, List.takeWhile_cons_of_neg (by simp), List.append_nil]
  · rw [List.dropWhile_append_of_pos hpass, List.dropWhile_cons_of_neg (by simp), List.tail_cons]

/-- The line is cut at its first equals sign. -/
theorem lineSets_cut {s : Setting} :
    LineSets line s ↔ ch '=' ∈ line ∧
      Assigns (trim (line.takeWhile (· ≠ ch '='))) (trim (line.dropWhile (· ≠ ch '=')).tail) s := by
  constructor
  · rintro ⟨left, right, rfl, hleft, hs⟩
    obtain ⟨htake, hdrop⟩ := cut_first right hleft
    rw [htake, hdrop]
    exact ⟨by simp, hs⟩
  · rintro ⟨hmem, hs⟩
    obtain ⟨left, right, rfl, hleft⟩ := List.eq_append_cons_of_mem hmem
    obtain ⟨htake, hdrop⟩ := cut_first right hleft
    rw [htake, hdrop] at hs
    exact ⟨left, right, rfl, hleft, hs⟩

theorem mapError_ok {x : Except Bytes ServerConfig} {f : Bytes → Bytes} :
    x.mapError f = .ok c ↔ x = .ok c := by
  cases x with
  | error e => exact iff_of_false nofun nofun
  | ok a => exact Iff.rfl

theorem no_separator : line.all (· ≠ ch '=') = true ↔ ch '=' ∉ line := by
  rw [List.all_eq_true]
  constructor
  · intro h hmem
    exact of_decide_eq_true (h _ hmem) rfl
  · intro h b hb
    refine decide_eq_true ?_
    rintro rfl
    exact h hb

theorem parseLine_ok (number : ℕ) :
    parseLine out number line = .ok c ↔ ∃ s, LineSets line s ∧ c = s.apply out := by
  unfold parseLine
  by_cases hmem : ch '=' ∈ line
  · rw [if_neg (fun h => no_separator.mp h hmem)]
    dsimp only
    by_cases hkey : trim (line.takeWhile (· ≠ ch '=')) = []
    · rw [if_pos (List.isEmpty_iff.mpr hkey)]
      refine iff_of_false nofun ?_
      rintro ⟨s, hs, -⟩
      exact (assigns_filled (lineSets_cut.mp hs).2).1 hkey
    · rw [if_neg (fun h => hkey (List.isEmpty_iff.mp h))]
      by_cases hvalue : trim (line.dropWhile (· ≠ ch '=')).tail = []
      · rw [if_pos (List.isEmpty_iff.mpr hvalue)]
        refine iff_of_false nofun ?_
        rintro ⟨s, hs, -⟩
        exact (assigns_filled (lineSets_cut.mp hs).2).2 hvalue
      · rw [if_neg (fun h => hvalue (List.isEmpty_iff.mp h)), mapError_ok, assign_ok hvalue]
        simp only [lineSets_cut, hmem, true_and]
  · rw [if_pos (no_separator.mpr hmem)]
    refine iff_of_false nofun ?_
    rintro ⟨s, hs, -⟩
    exact hmem (lineSets_cut.mp hs).1

theorem parseLines_ok (number : ℕ) (lines : List Bytes) :
    parseLines out number lines = .ok c ↔
      ∃ ss, List.Forall₂ LineSets ((lines.map trim).filter counts) ss ∧
        c = ss.foldl Setting.apply out := by
  induction lines generalizing out number with
  | nil =>
    constructor
    · intro h
      cases h
      exact ⟨[], .nil, rfl⟩
    · rintro ⟨ss, hss, rfl⟩
      cases hss
      rfl
  | cons rawLine rest ih =>
    unfold parseLines
    rw [List.map_cons, List.filter_cons]
    split
    · constructor
      · intro h
        obtain ⟨c', hline, hrest⟩ := bind_ok h
        obtain ⟨s, hs, rfl⟩ := (parseLine_ok _).mp hline
        obtain ⟨ss, hss, rfl⟩ := (ih _).mp hrest
        exact ⟨s :: ss, .cons hs hss, rfl⟩
      · rintro ⟨ss, hss, rfl⟩
        cases hss with
        | cons hs hss =>
          rw [LogLineParser.ok_bind ((parseLine_ok _).mpr ⟨_, hs, rfl⟩)]
          exact (ih _).mpr ⟨_, hss, rfl⟩
    · exact ih _

/-- The line after the last newline counts only if it is not empty, so leaving
it out makes no difference. -/
theorem significant_getLines (text : Bytes) :
    ((getLines text).map trim).filter counts = significant text := by
  unfold getLines significant
  dsimp only
  split
  · rename_i hlast
    obtain ⟨before, hbefore⟩ := List.getLast?_eq_some_iff.mp hlast
    have hblank : counts (trim []) = false := by decide
    rw [hbefore, List.dropLast_concat, List.map_append, List.filter_append, List.map_singleton,
      List.filter_singleton, hblank]
    simp
  · rfl

theorem parseConfigText_ok (text : Bytes) :
    parseConfigText text out = .ok c ↔
      ∃ ss, List.Forall₂ LineSets (significant text) ss ∧ c = ss.foldl Setting.apply out := by
  rw [parseConfigText, parseLines_ok, significant_getLines]

end Reading

section Last

/-- What the last one of a list of writes leaves in a field. -/
theorem last_write {σ ι α : Type} (write : σ → ι → σ) (field : σ → α) (pick : ι → Option α)
    (h : ∀ s i, field (write s i) = (pick i).getD (field s)) (is : List ι) (s : σ) :
    field (is.foldl write s) = ((is.filterMap pick).getLast?).getD (field s) := by
  induction is generalizing s with
  | nil => rfl
  | cons i is ih =>
    rw [List.foldl_cons, ih, h, List.filterMap_cons]
    cases pick i with
    | none => rfl
    | some a =>
      rw [List.getLast?_cons]
      rfl

/-- Every field has the last value it was given, or what it had before. -/
structure LastOf (ss : List Setting) (out c : ServerConfig) : Prop where
  port : c.port = ((ss.filterMap Setting.port?).getLast?).getD out.port
  chunkSize : c.chunkSize = ((ss.filterMap Setting.chunkSize?).getLast?).getD out.chunkSize
  sendBufferSize : c.sendBufferSize =
    ((ss.filterMap Setting.sendBufferSize?).getLast?).getD out.sendBufferSize
  logPath : c.logPath = ((ss.filterMap Setting.logPath?).getLast?).getD out.logPath
  others : c.daemonize = out.daemonize ∧ c.configPath = out.configPath

theorem lastOf_foldl (ss : List Setting) (out : ServerConfig) :
    LastOf ss out (ss.foldl Setting.apply out) where
  port := last_write _ _ Setting.port? (fun _ s => by cases s <;> rfl) ss out
  chunkSize := last_write _ _ Setting.chunkSize? (fun _ s => by cases s <;> rfl) ss out
  sendBufferSize := last_write _ _ Setting.sendBufferSize? (fun _ s => by cases s <;> rfl) ss out
  logPath := last_write _ _ Setting.logPath? (fun _ s => by cases s <;> rfl) ss out
  others := by
    induction ss generalizing out with
    | nil => exact ⟨rfl, rfl⟩
    | cons s ss ih =>
      obtain ⟨hdaemon, hpath⟩ := ih (s.apply out)
      rw [List.foldl_cons, hdaemon, hpath]
      cases s <;> exact ⟨rfl, rfl⟩

theorem settings_exist {lines : List Bytes} (h : ∀ line ∈ lines, ∃ s, LineSets line s) :
    ∃ ss, List.Forall₂ LineSets lines ss := by
  induction lines with
  | nil => exact ⟨[], .nil⟩
  | cons line lines ih =>
    obtain ⟨hline, hlines⟩ := List.forall_mem_cons.mp h
    obtain ⟨s, hs⟩ := hline
    obtain ⟨ss, hss⟩ := ih hlines
    exact ⟨s :: ss, .cons hs hss⟩

theorem settings_each {lines : List Bytes} {ss : List Setting}
    (h : List.Forall₂ LineSets lines ss) : ∀ line ∈ lines, ∃ s ∈ ss, LineSets line s := by
  induction h with
  | nil => exact fun _ h => absurd h List.not_mem_nil
  | cons hs _ ih =>
    refine List.forall_mem_cons.mpr ⟨⟨_, List.mem_cons_self, hs⟩, fun line hl => ?_⟩
    obtain ⟨s, hmem, hline⟩ := ih line hl
    exact ⟨s, List.mem_cons_of_mem _ hmem, hline⟩

/-- A text is read if and only if each of its significant lines is an assignment. -/
theorem parseConfigText_isOk (text : Bytes) (out : ServerConfig) :
    (∃ c, parseConfigText text out = .ok c) ↔ ∀ line ∈ significant text, ∃ s, LineSets line s := by
  constructor
  · rintro ⟨c, hc⟩
    obtain ⟨ss, hss, -⟩ := (parseConfigText_ok text).mp hc
    intro line hline
    obtain ⟨s, -, hs⟩ := settings_each hss line hline
    exact ⟨s, hs⟩
  · intro h
    obtain ⟨ss, hss⟩ := settings_exist h
    exact ⟨_, (parseConfigText_ok text).mpr ⟨ss, hss, rfl⟩⟩

end Last

end LogTransfer.App
