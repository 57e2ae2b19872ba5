import LogTransfer.LogLineParser
import Mathlib.Data.List.TakeWhile

/-!
# What reaches the shell

The ping console hands the typed address to a shell. Only four numbers with
dots between them get that far.
-/

set_option autoImplicit false

namespace LogTransfer.Client

section Source

/-- The digits of one octet: their value, their number and the text behind them. -/
def octetDigits : Bytes → ℕ → ℕ → Option (ℕ × ℕ × Bytes)
  | [], value, digits => some (value, digits, [])
  | c::rest, value, digits =>
    if isDigit c then
      if digits + 1 > 3 then none
      else octetDigits rest (value * 10 + (c.toNat - 0x30)) (digits + 1)
    else some (value, digits, c::rest)

/-- The loop over the octets; `more` are to come after this one. -/
def octetsLoop : ℕ → Bytes → Bool
  | more, text =>
    match octetDigits text 0 0 with
    | none => false
    | some (value, digits, rest) =>
      if digits = 0 ∨ value > 255 then false
      else match more, rest with
        | 0, rest => rest.isEmpty
        | _ + 1, [] => false
        | more + 1, c::rest => if c ≠ ch '.' then false else octetsLoop more rest

def isValidIpv4 (text : Bytes) : Bool :=
  if text.isEmpty || decide (text.length > 15) then false else octetsLoop 3 text

inductive PingError where
  | notAnAddress (ip : Bytes)
  | notStarted
  deriving DecidableEq, Repr

def PingError.text : PingError → Bytes
  | .notAnAddress ip => bytesOf "Ping: '" ++ ip ++ bytesOf "' is not a valid IPv4 address."
  | .notStarted => bytesOf "Ping: could not start the ping console."

/-- What the shell is given, if anything, and the outcome; `shell` tells whether
the process starts. -/
def openPingConsole (shell : Bytes → Bool) (ip : Bytes) :
    Option Bytes × Except PingError Unit :=
  if !isValidIpv4 ip then (none, .error (.notAnAddress ip))
  else
    let parameters := bytesOf "/k ping -t -w 1000 " ++ ip
    (some parameters, if shell parameters then .ok () else .error .notStarted)

end Source

section Grammar

/-- One to three digits for a number up to 255. -/
structure Octet (text : Bytes) : Prop where
  digits : allDigits text = true
  short : text.length ≤ 3
  byte : digitsValue text ≤ 255

def dotted : List Bytes → Bytes
  | [] => []
  | [part] => part
  | part::next::parts => part ++ ch '.' :: dotted (next::parts)

theorem octetDigits_eq (text : Bytes) (value digits : ℕ) (h : digits ≤ 3) :
    octetDigits text value digits =
      if digits + (text.takeWhile isDigit).length ≤ 3 then
        some ((text.takeWhile isDigit).foldl (fun v d => v * 10 + (d.toNat - 0x30)) value,
          digits + (text.takeWhile isDigit).length, text.dropWhile isDigit)
      else none := by
  induction text generalizing value digits with
  | nil => simp [octetDigits, h]
  | cons c rest ih =>
    rw [octetDigits]
    cases hc : isDigit c with
    | false => simp [hc, h]
    | true =>
      simp only [hc, if_true, List.takeWhile_cons_of_pos, List.dropWhile_cons_of_pos,
        List.length_cons, List.foldl_cons]
      by_cases hlong : digits + 1 > 3
      · rw [if_pos hlong, if_neg (by omega)]
      · rw [if_neg hlong, ih _ _ (by omega)]
        simp only [Nat.add_assoc, Nat.add_comm 1]

theorem octet_length {part : Bytes} (h : Octet part) : part.length ≠ 0 := fun he => by
  rw [List.length_eq_zero_iff] at he
  subst he
  cases h.digits

/-- The octet at the front, and what comes after it. -/
theorem octetDigits_front {text rest : Bytes} {value digits : ℕ}
    (h : octetDigits text 0 0 = some (value, digits, rest)) (hd : digits ≠ 0) (hv : value ≤ 255) :
    ∃ part, Octet part ∧ text = part ++ rest := by
  rw [octetDigits_eq _ _ _ (by decide)] at h
  split at h
  · rename_i hshort
    obtain ⟨rfl, rfl, rfl⟩ := Prod.mk.injEq .. ▸ (Prod.mk.injEq .. ▸ Option.some.inj h)
    refine ⟨text.takeWhile isDigit, ⟨?_, by omega, hv⟩, (List.takeWhile_append_dropWhile).symm⟩
    have hne : text.takeWhile isDigit ≠ [] := fun he => hd (by rw [he]; rfl)
    simp [allDigits, hne]
  · cases h

theorem octetDigits_part {part rest : Bytes} (hp : Octet part)
    (hr : ∀ c ∈ rest.head?, isDigit c = false) :
    octetDigits (part ++ rest) 0 0 = some (digitsValue part, part.length, rest) := by
  have hall : ∀ c ∈ part, isDigit c = true :=
    List.all_eq_true.mp (Bool.and_eq_true_iff.mp hp.digits).2
  have hend : rest.takeWhile isDigit = [] ∧ rest.dropWhile isDigit = rest := by
    cases rest with
    | nil => exact ⟨rfl, rfl⟩
    | cons c rest =>
      have hc : ¬ isDigit c = true := by simp [hr c rfl]
      exact ⟨List.takeWhile_cons_of_neg hc, List.dropWhile_cons_of_neg hc⟩
  rw [octetDigits_eq _ _ _ (by decide), List.takeWhile_append_of_pos hall,
    List.dropWhile_append_of_pos hall, hend.1, hend.2, List.append_nil, Nat.zero_add,
    if_pos hp.short]
  rfl

theorem dotted_cons (part : Bytes) {parts : List Bytes} (h : parts ≠ []) :
    dotted (part::parts) = part ++ ch '.' :: dotted parts := by
  obtain ⟨next, more, rfl⟩ := List.exists_cons_of_ne_nil h
  rfl

theorem octetsLoop_iff (more : ℕ) (text : Bytes) :
    octetsLoop more text = true ↔ ∃ parts : List Bytes, parts.length = more + 1 ∧
      (∀ part ∈ parts, Octet part) ∧ text = dotted parts := by
  induction more generalizing text with
  | zero =>
    constructor
    · intro h
      rw [octetsLoop] at h
      split at h
      · cases h
      · rename_i value digits rest hfront
        split at h
        · cases h
        · rename_i hfine
          obtain ⟨part, hp, rfl⟩ := octetDigits_front hfront (fun hz => hfine (.inl hz)) (by omega)
          obtain rfl := List.isEmpty_iff.mp h
          exact ⟨[part], rfl, fun p hm => List.mem_singleton.mp hm ▸ hp, List.append_nil _⟩
    · rintro ⟨parts, hlen, hall, rfl⟩
      obtain ⟨part, rfl⟩ := List.length_eq_one_iff.mp hlen
      have hp := hall part List.mem_cons_self
      have hfront : octetDigits (part ++ []) 0 0 = some (digitsValue part, part.length, []) :=
        octetDigits_part hp fun c hc => by cases hc
      rw [List.append_nil] at hfront
      rw [octetsLoop, dotted, hfront]
      simp [octet_length hp, hp.byte]
  | succ more ih =>
    constructor
    · intro h
      rw [octetsLoop] at h
      split at h
      · cases h
      · rename_i value digits rest hfront
        split at h
        · cases h
        · rename_i hfine
          obtain ⟨part, hp, rfl⟩ := octetDigits_front hfront (fun hz => hfine (.inl hz)) (by omega)
          cases rest with
          | nil => cases h
          | cons c rest =>
            change (if c ≠ ch '.' then false else octetsLoop more rest) = true at h
            split at h
            · cases h
            · rename_i hdot
              obtain ⟨parts, hlen, hall, rfl⟩ := (ih rest).mp h
              have hne : parts ≠ [] := List.ne_nil_of_length_pos (by omega)
              refine ⟨part::parts, by rw [List.length_cons, hlen], ?_, ?_⟩
              · intro p hm
                exact (List.mem_cons.mp hm).elim (fun he => he ▸ hp) (hall p)
              · rw [dotted_cons part hne, not_not.mp hdot]
    · rintro ⟨parts, hlen, hall, rfl⟩
      obtain ⟨part, parts, rfl⟩ := List.exists_cons_of_length_eq_add_one hlen
      have hne : parts ≠ [] := List.ne_nil_of_length_pos (by simp at hlen; omega)
      have hp := hall part List.mem_cons_self
      have hdot : ∀ c ∈ (ch '.' :: dotted parts).head?, isDigit c = false := fun c hc => by
        obtain rfl := Option.some.inj hc
        rfl
      have hfront := octetDigits_part hp hdot
      have hrest := (ih (dotted parts)).mpr
        ⟨parts, by simpa using hlen, fun p hm => hall p (List.mem_cons_of_mem _ hm), rfl⟩
      rw [octetsLoop, dotted_cons part hne, hfront]
      simp [octet_length hp, hp.byte, hrest]

theorem dotted_length {parts : List Bytes} (h : ∀ part ∈ parts, Octet part) (hne : parts ≠ []) :
    0 < (dotted parts).length ∧ (dotted parts).length + 1 ≤ 4 * parts.length := by
  induction parts with
  | nil => exact absurd rfl hne
  | cons part parts ih =>
    have hp := h part List.mem_cons_self
    have hpos := octet_length hp
    have hshort := hp.short
    cases parts with
    | nil =>
      simp only [dotted, List.length_singleton]
      omega
    | cons next parts =>
      have hrest := (ih (fun p hm => h p (List.mem_cons_of_mem _ hm)) (List.cons_ne_nil _ _)).2
      rw [dotted, List.length_append, List.length_cons, List.length_cons]
      omega

theorem isValidIpv4_iff (text : Bytes) :
    isValidIpv4 text = true ↔ ∃ parts : List Bytes, parts.length = 4 ∧
      (∀ part ∈ parts, Octet part) ∧ text = dotted parts := by
  rw [isValidIpv4, ← octetsLoop_iff 3]
  constructor
  · intro h
    split at h
    · cases h
    · exact h
  · intro h
    obtain ⟨parts, hlen, hall, htext⟩ := (octetsLoop_iff 3 text).mp h
    have hbound := dotted_length hall (List.ne_nil_of_length_pos (by omega))
    rw [← htext, hlen] at hbound
    rw [if_neg, h]
    simp only [Bool.or_eq_true, List.isEmpty_iff_length_eq_zero, decide_eq_true_eq]
    omega

/-- The shell is given the address only, and an address is four numbers. -/
theorem shell_given_addresses (shell : Bytes → Bool) (ip parameters : Bytes) :
    (openPingConsole shell ip).1 = some parameters ↔
      parameters = bytesOf "/k ping -t -w 1000 " ++ ip ∧
        ∃ parts : List Bytes, parts.length = 4 ∧ (∀ part ∈ parts, Octet part) ∧
          ip = dotted parts := by
  rw [← isValidIpv4_iff, openPingConsole]
  cases hv : isValidIpv4 ip with
  | false => simp
  | true =>
    simp only [Bool.not_true, Bool.false_eq_true, if_false, Option.some.injEq, and_true]
    exact eq_comm

end Grammar

end LogTransfer.Client
