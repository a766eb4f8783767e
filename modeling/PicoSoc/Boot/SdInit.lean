import PicoSoc.Boot.ReadSector

set_option autoImplicit false

/-! # When `sd_init` returns

Every wait of the driver but the loop of `sd_acmd41` counts its transfers. -/

namespace PicoSoc.Boot

open Bytes

variable (miso : ℕ → Byte)

/-! ## The answers of the card -/

/-- The answer to a command that is polled at most `n` times from transfer `p` on, and the transfer
    after it; without an answer `0xFF`. -/
def answer : ℕ → ℕ → Byte × ℕ
  | 0, p => (0xFF, p)
  | n + 1, p => if miso p &&& 0x80 = 0 then (miso p, p + 1) else answer n (p + 1)

/-- The answer to a command that begins with transfer `p`. -/
def cmdAnswer (p : ℕ) : Byte × ℕ := answer miso 1000 (p + 7)

/-- `CMD0`, after the 20 transfers of the power-on sequence that begins with transfer `p`. -/
def answer0 (p : ℕ) : Byte × ℕ := cmdAnswer miso (p + 20)

/-- `CMD8`, one transfer after the end of `CMD0`. -/
def answer8 (p : ℕ) : Byte × ℕ := cmdAnswer miso ((answer0 miso p).2 + 1)

/-- The card accepts `CMD0` and `CMD8`. -/
structure Starts (p : ℕ) : Prop where
  cmd0 : (answer0 miso p).1 = 0x01
  cmd8 : (answer8 miso p).1 = 0x01
  volt : miso ((answer8 miso p).2 + 2) &&& 0xF = 0x1
  echo : miso ((answer8 miso p).2 + 3) = 0xAA

/-- A pass of `sd_acmd41` that begins with transfer `p`: `CMD55`, and the answer to `ACMD41`. -/
def passAnswer (p : ℕ) : Byte × ℕ := cmdAnswer miso ((cmdAnswer miso p).2 + 1)

/-- The transfer that begins pass `k`, when the first pass begins with transfer `p`. -/
def passStart (p : ℕ) : ℕ → ℕ
  | 0 => p
  | k + 1 => (passAnswer miso (passStart p k)).2 + 1

/-- The card answers `ACMD41` with `0x01` for ever. -/
def NeverReady (p : ℕ) : Prop := ∀ k, (passAnswer miso (passStart miso p k)).1 = 0x01

/-! ## The driver follows them -/

theorem waitR1_answer (n : ℕ) (d : Driver) :
    (waitR1 miso n d).1 = (answer miso n d.count).1
      ∧ (waitR1 miso n d).2.count = (answer miso n d.count).2 := by
  induction n generalizing d with
  | zero => exact ⟨rfl, rfl⟩
  | succ n ih =>
      rw [waitR1, answer, sdDummy_eq]
      dsimp only
      split
      · exact ⟨rfl, rfl⟩
      · exact ih (d.polled 1)

theorem sdCmd_answer (cmd : Byte) (arg : BitVec 32) (crc : Byte) (d : Driver) :
    (sdCmd miso cmd arg crc d).1 = (cmdAnswer miso d.count).1
      ∧ (sdCmd miso cmd arg crc d).2.count = (cmdAnswer miso d.count).2 := by
  rw [sdCmd_eq]
  exact waitR1_answer miso 1000 _

theorem sdDummies_eq (n : ℕ) (d : Driver) : sdDummies miso n d = d.polled n := by
  induction n generalizing d with
  | zero => rw [sdDummies, polled_zero]
  | succ n ih => rw [sdDummies, ih, sdDummy_eq, polled_polled, Nat.add_comm 1 n]

theorem count_sdPoweron (d : Driver) : (sdPoweron miso d).count = d.count + 20 := by
  rw [sdPoweron, sdDummies_eq]
  rfl

@[simp] theorem puts_count (s : String) (d : Driver) : (d.puts s).count = d.count := rfl
@[simp] theorem puth_count (v : Byte) (d : Driver) : (d.puth v).count = d.count := rfl
@[simp] theorem failR1_count (r : Byte) (d : Driver) : (d.failR1 r).count = d.count := by
  rw [Driver.failR1, puts_count, puth_count, puts_count]

@[simp] theorem sdEnd_count (d : Driver) : (sdEnd miso d).count = d.count + 1 := rfl

theorem neg_one_ne : ¬(-1 : ℤ) = 0 := by decide

theorem sdCmd0_spec (d : Driver) :
    ((sdCmd0 miso d).1 = 0 ↔ (cmdAnswer miso d.count).1 = 0x01)
      ∧ (sdCmd0 miso d).2.count = (cmdAnswer miso d.count).2 + 1 := by
  obtain ⟨hr, hcount⟩ := sdCmd_answer miso 0x40 0 0x95 (d.puts "  CMD0  ... ")
  rw [puts_count] at hr hcount
  rw [sdCmd0]
  rw [hr]
  by_cases hone : (cmdAnswer miso d.count).1 = 0x01
  · rw [if_neg (not_not.2 hone)]
    refine ⟨⟨fun _ => hone, fun _ => rfl⟩, ?_⟩
    rw [puts_count, sdEnd_count, hcount]
  · rw [if_pos hone]
    refine ⟨⟨fun h => absurd h neg_one_ne, fun h => absurd h hone⟩, ?_⟩
    rw [failR1_count, sdEnd_count, hcount]

theorem sdCmd8_spec (d : Driver) :
    ((sdCmd8 miso d).1 = 0 ↔ (cmdAnswer miso d.count).1 = 0x01
        ∧ miso ((cmdAnswer miso d.count).2 + 2) &&& 0xF = 0x1
        ∧ miso ((cmdAnswer miso d.count).2 + 3) = 0xAA)
      ∧ ((sdCmd8 miso d).1 = 0 → (sdCmd8 miso d).2.count = (cmdAnswer miso d.count).2 + 5) := by
  obtain ⟨hr, hcount⟩ := sdCmd_answer miso 0x48 0x000001AA 0x87 (d.puts "  CMD8  ... ")
  rw [puts_count] at hr hcount
  rw [sdCmd8]
  dsimp only
  rw [hr, sdDummies_eq, sdDummy_eq, sdDummy_eq, polled_polled, polled_polled, polled_count,
    polled_count, hcount]
  by_cases hone : (cmdAnswer miso d.count).1 = 0x01
  · rw [if_neg (not_not.2 hone)]
    by_cases hvolt : miso ((cmdAnswer miso d.count).2 + 2) &&& 0xF = 0x1
    · by_cases hecho : miso ((cmdAnswer miso d.count).2 + (2 + 1)) = 0xAA
      · rw [if_neg (by rintro (h | h) <;> contradiction)]
        refine ⟨⟨fun _ => ⟨hone, hvolt, hecho⟩, fun _ => rfl⟩, fun _ => ?_⟩
        rw [puts_count, sdEnd_count, polled_count, hcount]
      · rw [if_pos (.inr hecho)]
        exact ⟨⟨fun h => absurd h neg_one_ne, fun h => absurd h.2.2 hecho⟩,
          fun h => absurd h neg_one_ne⟩
    · rw [if_pos (.inl hvolt)]
      exact ⟨⟨fun h => absurd h neg_one_ne, fun h => absurd h.2.1 hvolt⟩,
        fun h => absurd h neg_one_ne⟩
  · rw [if_pos hone]
    exact ⟨⟨fun h => absurd h neg_one_ne, fun h => absurd h.1 hone⟩, fun h => absurd h neg_one_ne⟩

theorem acmd41Pass_spec (d : Driver) :
    (acmd41Pass miso d).1 = (passAnswer miso d.count).1
      ∧ (acmd41Pass miso d).2.count = (passAnswer miso d.count).2 + 1 := by
  obtain ⟨-, hcount⟩ := sdCmd_answer miso 0x77 0 0x65 d
  obtain ⟨hr, hcount'⟩ :=
    sdCmd_answer miso 0x69 0x40000000 0x77 (sdEnd miso (sdCmd miso 0x77 0 0x65 d).2)
  rw [sdEnd_count, hcount] at hr hcount'
  rw [acmd41Pass]
  dsimp only
  rw [sdEnd_count, hr, hcount']
  exact ⟨rfl, rfl⟩

/-! ## The loop -/

theorem passStart_succ (p k : ℕ) :
    passStart miso p (k + 1) = passStart miso ((passAnswer miso p).2 + 1) k := by
  induction k with
  | zero => rfl
  | succ k ih => rw [passStart, ih, passStart]

/-- The loop ends with the first other answer. -/
theorem acmd41Loop_isSome (fuel : ℕ) (d : Driver) :
    (acmd41Loop miso fuel d).isSome = true ↔
      ∃ k < fuel, (passAnswer miso (passStart miso d.count k)).1 ≠ 0x01 := by
  induction fuel generalizing d with
  | zero =>
      rw [acmd41Loop]
      exact ⟨fun h => absurd h (by simp), fun ⟨k, hk, _⟩ => absurd hk (Nat.not_lt_zero k)⟩
  | succ fuel ih =>
      obtain ⟨hr, hcount⟩ := acmd41Pass_spec miso d
      rw [acmd41Loop, hr]
      by_cases hone : (passAnswer miso d.count).1 = 0x01
      · rw [if_pos hone, ih, hcount]
        constructor
        · rintro ⟨k, hk, hne⟩
          refine ⟨k + 1, by omega, ?_⟩
          rwa [passStart_succ]
        · rintro ⟨k, hk, hne⟩
          cases k with
          | zero => exact absurd hone hne
          | succ k =>
              rw [passStart_succ] at hne
              exact ⟨k, by omega, hne⟩
      · rw [if_neg hone]
        exact ⟨fun _ => ⟨0, by omega, hone⟩, fun _ => rfl⟩

theorem sdAcmd41_isSome (fuel : ℕ) (d : Driver) :
    (sdAcmd41 miso fuel d).isSome = true ↔
      ∃ k < fuel, (passAnswer miso (passStart miso d.count k)).1 ≠ 0x01 := by
  rw [sdAcmd41, Option.isSome_map, acmd41Loop_isSome, puts_count]

/-! ## `sd_init` -/

/-- `bootloader_main` up to the load step, or to the endless loop after a failure. -/
def bootloaderInit (fuel : ℕ) (d : Driver) : Option (Bool × Driver) :=
  (sdInit miso fuel { d with machine := banner d.machine }).map fun r =>
    if r.1 ≠ 0 then
      (false, { r.2 with machine := (uartPuts "[FAIL] SD Init\r\n" r.2.machine).emit (.led 0xE1) })
    else
      let m := (uartPuts "[1] SD Init OK\r\n" r.2.machine).emit (.led 0x03)
      (true, { r.2 with machine := uartPuts "[2] Load FW\r\n" m })

/-- How often the loop may run. -/
theorem sdInit_isSome (fuel : ℕ) (d : Driver) :
    (sdInit miso fuel d).isSome = true ↔
      (Starts miso d.count →
        ∃ k < fuel, (passAnswer miso (passStart miso ((answer8 miso d.count).2 + 5) k)).1 ≠ 0x01) := by
  obtain ⟨hzero, hcount⟩ := sdCmd0_spec miso (sdPoweron miso d)
  rw [count_sdPoweron] at hzero hcount
  obtain ⟨height, hcount'⟩ := sdCmd8_spec miso (sdCmd0 miso (sdPoweron miso d)).2
  rw [hcount] at height hcount'
  rw [sdInit]
  dsimp only
  by_cases h0 : (sdCmd0 miso (sdPoweron miso d)).1 = 0
  · rw [if_neg (not_not.2 h0)]
    by_cases h8 : (sdCmd8 miso (sdCmd0 miso (sdPoweron miso d)).2).1 = 0
    · rw [if_neg (not_not.2 h8), Option.isSome_map, sdAcmd41_isSome, hcount' h8]
      obtain ⟨hr, hvolt, hecho⟩ := height.1 h8
      exact ⟨fun h _ => h, fun h => h ⟨hzero.1 h0, hr, hvolt, hecho⟩⟩
    · rw [if_pos h8]
      exact ⟨fun _ h => absurd (height.2 ⟨h.cmd8, h.volt, h.echo⟩) h8, fun _ => rfl⟩
  · rw [if_pos h0]
    exact ⟨fun _ h => absurd (hzero.2 h.cmd0) h0, fun _ => rfl⟩

/-- `sd_init` returns, and `bootloader_main` comes to the load step or to its failure indication,
    exactly when the card rejects `CMD0` or `CMD8` or does not answer `ACMD41` with `0x01` for ever. -/
theorem sd_init_returns_iff (d : Driver) :
    ((∃ fuel r, sdInit miso fuel d = some r) ↔
        (Starts miso d.count → ¬NeverReady miso ((answer8 miso d.count).2 + 5)))
      ∧ ((∃ fuel r, bootloaderInit miso fuel d = some r) ↔
        (Starts miso d.count → ¬NeverReady miso ((answer8 miso d.count).2 + 5))) := by
  have hfuel : ∀ e : Driver, e.count = d.count → ((∃ fuel, (sdInit miso fuel e).isSome = true) ↔
      (Starts miso d.count → ¬NeverReady miso ((answer8 miso d.count).2 + 5))) := by
    intro e he
    constructor
    · rintro ⟨fuel, h⟩ hstarts hnever
      rw [sdInit_isSome, he] at h
      obtain ⟨k, -, hne⟩ := h hstarts
      exact hne (hnever k)
    · intro h
      by_cases hstarts : Starts miso d.count
      · obtain ⟨k, hne⟩ := not_forall.1 (h hstarts)
        refine ⟨k + 1, (sdInit_isSome miso (k + 1) e).2 fun _ => ⟨k, Nat.lt_succ_self k, ?_⟩⟩
        rw [he]
        exact hne
      · refine ⟨0, (sdInit_isSome miso 0 e).2 fun hs => absurd hs ?_⟩
        rw [he]
        exact hstarts
  constructor
  · rw [← hfuel d rfl]
    exact exists_congr fun fuel => Option.isSome_iff_exists.symm
  · rw [← hfuel { d with machine := banner d.machine } rfl]
    refine exists_congr fun fuel => ?_
    rw [← Option.isSome_iff_exists, bootloaderInit, Option.isSome_map]

/-- The driver when the program starts. -/
def startDriver : Driver where
  machine := { mem := { byte := fun _ => 0, stored := [] }, reads := 0, out := [] }
  gSdhc := false
  count := 0
  sent := []
  csN := true
  clkdiv := 199

/-- The card echoes the pattern of `CMD8` and is busy with its initialisation for ever. -/
def busyCard (p : ℕ) : Byte := if p = 40 then 0xAA else 0x01

theorem busyCard_answer {p : ℕ} (hp : 40 < p) : cmdAnswer busyCard p = (0x01, p + 8) := by
  have hbyte : busyCard (p + 7) = 0x01 := if_neg (by omega)
  rw [cmdAnswer, answer, hbyte]
  rfl

theorem busyCard_neverReady : NeverReady busyCard 42 := by
  have hpass : ∀ p, 40 < p → passAnswer busyCard p = (0x01, p + 17) := by
    intro p hp
    rw [passAnswer, busyCard_answer hp, busyCard_answer (by dsimp only; omega)]
  have hlate : ∀ k, 40 < passStart busyCard 42 k := by
    intro k
    induction k with
    | zero => decide
    | succ k ih =>
        rw [passStart, hpass _ ih]
        dsimp only
        omega
  intro k
  rw [hpass _ (hlate k)]

theorem not_returns_busyCard : ¬∃ fuel r, sdInit busyCard fuel startDriver = some r := by
  rintro ⟨fuel, r, h⟩
  have hsome : (sdInit busyCard fuel startDriver).isSome = true := by
    rw [h]
    rfl
  have hstarts : Starts busyCard startDriver.count := ⟨rfl, rfl, rfl, rfl⟩
  obtain ⟨k, -, hne⟩ := (sdInit_isSome busyCard fuel startDriver).1 hsome hstarts
  exact hne (busyCard_neverReady k)

end PicoSoc.Boot
