import PicoSoc.Boot.SdCard

set_option autoImplicit false

/-! # What a sector read does to the card and to the buffer -/

namespace PicoSoc.Boot

open Bytes

variable (miso : ℕ → Byte)

/-! ## Polls -/

/-- After `k` transfers of `0xFF`. -/
def Driver.polled (k : ℕ) (d : Driver) : Driver :=
  { d with count := d.count + k, sent := d.sent ++ List.replicate k (d.csN, 0xFF) }

theorem sdDummy_eq (d : Driver) : sdDummy miso d = (miso d.count, d.polled 1) := rfl

theorem spiXfer_eq (d : Driver) : spiXfer miso 0xFF d = (miso d.count, d.polled 1) := rfl

@[simp] theorem polled_zero (d : Driver) : d.polled 0 = d := by
  simp [Driver.polled]

@[simp] theorem polled_polled (d : Driver) (j k : ℕ) : (d.polled j).polled k = d.polled (j + k) := by
  simp only [Driver.polled, Nat.add_assoc, List.append_assoc, List.replicate_append_replicate]

@[simp] theorem polled_count (d : Driver) (k : ℕ) : (d.polled k).count = d.count + k := rfl

theorem and_80_eq_zero (b : Byte) : b &&& 0x80 = 0 ↔ b.getLsbD 7 = false := by
  revert b
  decide

/-- The first answer with bit 7 clear, or the timeout. -/
theorem waitR1_cases (n : ℕ) (d : Driver) :
    (∃ i < n, (∀ j < i, (miso (d.count + j)).getLsbD 7 = true)
        ∧ (miso (d.count + i)).getLsbD 7 = false
        ∧ waitR1 miso n d = (miso (d.count + i), d.polled (i + 1)))
      ∨ ((∀ j < n, (miso (d.count + j)).getLsbD 7 = true)
        ∧ waitR1 miso n d = (0xFF, (d.polled n).puts "  [WARN] sd_cmd timeout\r\n")) := by
  induction n generalizing d with
  | zero =>
      right
      refine ⟨fun j hj => absurd hj (Nat.not_lt_zero j), ?_⟩
      rw [waitR1, polled_zero]
  | succ n ih =>
      rw [waitR1, sdDummy_eq]
      dsimp only
      by_cases hready : miso d.count &&& 0x80 = 0
      · left
        refine ⟨0, Nat.succ_pos n, fun j hj => absurd hj (Nat.not_lt_zero j), ?_, ?_⟩
        · exact (and_80_eq_zero _).1 hready
        · rw [if_pos hready]
          rfl
      · have hbusy : (miso d.count).getLsbD 7 = true := by
          rw [and_80_eq_zero] at hready
          simpa using hready
        have hall : ∀ m, (∀ j < m, (miso ((d.polled 1).count + j)).getLsbD 7 = true) →
            ∀ j < m + 1, (miso (d.count + j)).getLsbD 7 = true := by
          intro m h j hj
          rcases Nat.eq_zero_or_pos j with rfl | hpos
          · exact hbusy
          · have := h (j - 1) (by omega)
            rwa [polled_count, show d.count + 1 + (j - 1) = d.count + j by omega] at this
        rw [if_neg hready]
        rcases ih (d.polled 1) with ⟨i, hi, hearly, hclear, hrun⟩ | ⟨hearly, hrun⟩
        · left
          rw [polled_count, Nat.add_assoc, Nat.add_comm 1 i] at hclear
          refine ⟨i + 1, by omega, hall i hearly, hclear, ?_⟩
          rw [hrun, polled_polled, polled_count, Nat.add_assoc, Nat.add_comm 1 i,
            Nat.add_comm 1 (i + 1)]
        · right
          refine ⟨hall n hearly, ?_⟩
          rw [hrun, polled_polled, Nat.add_comm 1 n]

/-- The first `0xFE` before the last transfer that the timeout allows, or the timeout. -/
theorem waitToken_cases (n : ℕ) (d : Driver) :
    (∃ t < n, (∀ u < t, miso (d.count + u) ≠ 0xFE) ∧ miso (d.count + t) = 0xFE
        ∧ waitToken miso (n + 1) d = (true, d.polled (t + 1)))
      ∨ ((∀ u < n, miso (d.count + u) ≠ 0xFE)
        ∧ waitToken miso (n + 1) d = (false, d.polled (n + 1))) := by
  induction n generalizing d with
  | zero =>
      right
      exact ⟨fun u hu => absurd hu (Nat.not_lt_zero u), rfl⟩
  | succ n ih =>
      rw [waitToken, spiXfer_eq]
      dsimp only
      rw [if_neg (Nat.succ_ne_zero n)]
      by_cases htoken : miso d.count = 0xFE
      · left
        refine ⟨0, Nat.succ_pos n, fun u hu => absurd hu (Nat.not_lt_zero u), htoken, ?_⟩
        rw [if_pos htoken]
      · have hall : ∀ m, (∀ u < m, miso ((d.polled 1).count + u) ≠ 0xFE) →
            ∀ u < m + 1, miso (d.count + u) ≠ 0xFE := by
          intro m h u hu
          rcases Nat.eq_zero_or_pos u with rfl | hpos
          · exact htoken
          · have := h (u - 1) (by omega)
            rwa [polled_count, show d.count + 1 + (u - 1) = d.count + u by omega] at this
        rw [if_neg htoken]
        rcases ih (d.polled 1) with ⟨t, ht, hnone, hfe, hrun⟩ | ⟨hnone, hrun⟩
        · left
          rw [polled_count, Nat.add_assoc, Nat.add_comm 1 t] at hfe
          refine ⟨t + 1, by omega, hall t hnone, hfe, ?_⟩
          rw [hrun, polled_polled, Nat.add_comm 1 (t + 1)]
        · right
          refine ⟨hall n hnone, ?_⟩
          rw [hrun, polled_polled, Nat.add_comm 1 (n + 1)]

/-! ## Commands and data -/

/-- The bytes of a command, after the byte that precedes it. -/
def cmdBytes (cmd : Byte) (arg : BitVec 32) (crc : Byte) : List Byte :=
  [0xFF, cmd] ++ leftBytes 4 4 arg ++ [crc]

/-- The card is selected and has got a command. -/
def Driver.commanded (cmd : Byte) (arg : BitVec 32) (crc : Byte) (d : Driver) : Driver :=
  { d with
    csN := false
    count := d.count + 7
    sent := d.sent ++ (cmdBytes cmd arg crc).map fun b => (false, b) }

theorem leftBytes_arg (arg : BitVec 32) :
    leftBytes 4 4 arg = [(arg >>> 24 &&& 0xFF).setWidth 8, (arg >>> 16 &&& 0xFF).setWidth 8,
      (arg >>> 8 &&& 0xFF).setWidth 8, (arg &&& 0xFF).setWidth 8] := by
  have hmask : ∀ k < 8, (0xFF : BitVec 32).getLsbD k = true := by decide
  have hbyte : ∀ n, (arg >>> n &&& 0xFF).setWidth 8 = arg.extractLsb' n 8 := by
    intro n
    apply BitVec.eq_of_getLsbD_eq
    intro k hk
    rw [BitVec.getLsbD_setWidth, BitVec.getLsbD_and, hmask k hk, BitVec.getLsbD_ushiftRight,
      BitVec.getLsbD_extractLsb', Bool.and_true]
  have hlast : (arg &&& 0xFF).setWidth 8 = arg.extractLsb' 0 8 := by
    rw [← hbyte 0, BitVec.ushiftRight_zero]
  rw [hbyte, hbyte, hbyte, hlast]
  rfl

theorem sdCmd_eq (cmd : Byte) (arg : BitVec 32) (crc : Byte) (d : Driver) :
    sdCmd miso cmd arg crc d = waitR1 miso 1000 (d.commanded cmd arg crc) := by
  have hsent : ∀ l : List (Bool × Byte), l ++ [(false, (0xFF : Byte))] ++ [(false, cmd)]
      ++ [(false, (arg >>> 24 &&& 0xFF).setWidth 8)] ++ [(false, (arg >>> 16 &&& 0xFF).setWidth 8)]
      ++ [(false, (arg >>> 8 &&& 0xFF).setWidth 8)] ++ [(false, (arg &&& 0xFF).setWidth 8)]
      ++ [(false, crc)] = l ++ (cmdBytes cmd arg crc).map fun b => (false, b) := by
    intro l
    unfold cmdBytes
    rw [leftBytes_arg]
    simp only [List.append_assoc, List.cons_append, List.nil_append, List.map_cons, List.map_nil]
  rw [Driver.commanded, ← hsent d.sent]
  rfl

def Driver.withMem (mem : Memory) (d : Driver) : Driver := { d with machine := d.machine.withMem mem }

theorem polled_withMem (d : Driver) (mem : Memory) (k : ℕ) :
    (d.withMem mem).polled k = (d.polled k).withMem mem := rfl

theorem readBytes_eq (buf : Addr) (n : ℕ) (d : Driver) :
    readBytes miso buf n d =
      (d.polled n).withMem (d.machine.mem.fill buf (fun k => miso (d.count + k)) n) := by
  induction n with
  | zero => rw [readBytes, polled_zero]; rfl
  | succ n ih =>
      rw [readBytes, ih, ← polled_polled]
      rfl

/-! ## All answers -/

/-- From transfer `p` on the card answers ready after `i` bytes and sends the token after `t` more. -/
structure Delivers (p i t : ℕ) : Prop where
  ready_lt : i < 1000
  busy : ∀ j < i, (miso (p + j)).getLsbD 7 = true
  ready : miso (p + i) = 0x00
  token_lt : t < 99999
  early : ∀ u < t, miso (p + i + 1 + u) ≠ 0xFE
  token : miso (p + i + 1 + t) = 0xFE

/-- The address that a read sends. -/
def Driver.sectorArg (d : Driver) (sector : BitVec 32) : BitVec 32 :=
  if d.gSdhc then sector else sector * 512

/-- The end of a read: the card has been deselected and clocked once more. -/
structure Driver.Released (d d' : Driver) (sector : BitVec 32) (n : ℕ) : Prop where
  csN : d'.csN = true
  count : d'.count = d.count + 7 + n + 1
  sent : d'.sent = d.sent
    ++ (cmdBytes 0x51 (d.sectorArg sector) 0x01 ++ List.replicate n 0xFF).map (fun b => (false, b))
    ++ [(true, 0xFF)]

theorem released_polled (sector : BitVec 32) (d : Driver) (n : ℕ) {e : Driver}
    (hcount : e.count = ((d.commanded 0x51 (d.sectorArg sector) 0x01).polled n).count)
    (hsent : e.sent = ((d.commanded 0x51 (d.sectorArg sector) 0x01).polled n).sent) :
    d.Released (sdDummy miso (csHi e)).2 sector n where
  csN := rfl
  count := congrArg (· + 1) hcount
  sent := by
    show e.sent ++ [(true, 0xFF)] = _
    rw [hsent]
    simp [Driver.polled, Driver.commanded]

theorem mem_released (e : Driver) (mem : Memory) :
    (sdDummy miso (csHi (e.withMem mem))).2.machine.mem = mem := rfl

/-- The three ends of a read. -/
theorem readSector_refused {sector : BitVec 32} {buf : Addr} {d e : Driver} {r : Byte}
    (hcmd : waitR1 miso 1000 (d.commanded 0x51 (d.sectorArg sector) 0x01) = (r, e)) (hr : r ≠ 0x00) :
    readSector miso sector buf d = (-1, (sdDummy miso (csHi e)).2) := by
  rw [← sdCmd_eq] at hcmd
  unfold Driver.sectorArg at hcmd
  rw [readSector, hcmd]
  dsimp only
  rw [if_pos hr]

theorem readSector_noToken {sector : BitVec 32} {buf : Addr} {d e f : Driver}
    (hcmd : waitR1 miso 1000 (d.commanded 0x51 (d.sectorArg sector) 0x01) = (0x00, e))
    (hwait : waitToken miso 100000 e = (false, f)) :
    readSector miso sector buf d = (-2, (sdDummy miso (csHi f)).2) := by
  rw [← sdCmd_eq] at hcmd
  unfold Driver.sectorArg at hcmd
  rw [readSector, hcmd]
  dsimp only
  rw [if_neg (by decide), hwait]
  rfl

theorem readSector_token {sector : BitVec 32} {buf : Addr} {d e f : Driver}
    (hcmd : waitR1 miso 1000 (d.commanded 0x51 (d.sectorArg sector) 0x01) = (0x00, e))
    (hwait : waitToken miso 100000 e = (true, f)) :
    readSector miso sector buf d =
      (0, (sdDummy miso (csHi ((readBytes miso buf 512 f).polled 2))).2) := by
  rw [← sdCmd_eq] at hcmd
  unfold Driver.sectorArg at hcmd
  rw [readSector, hcmd]
  dsimp only
  rw [if_neg (by decide), hwait, if_pos rfl, spiXfer_eq, spiXfer_eq, polled_polled]

/-- At most one place is the first answer with bit 7 clear. -/
theorem first_clear_unique {p i i' : ℕ} (hbusy : ∀ j < i, (miso (p + j)).getLsbD 7 = true)
    (hclear : (miso (p + i)).getLsbD 7 = false)
    (hbusy' : ∀ j < i', (miso (p + j)).getLsbD 7 = true)
    (hclear' : (miso (p + i')).getLsbD 7 = false) : i' = i := by
  rcases Nat.lt_trichotomy i' i with hlt | heq | hlt
  · have := hbusy i' hlt
    rw [hclear'] at this
    exact absurd this (by decide)
  · exact heq
  · have := hbusy' i hlt
    rw [hclear] at this
    exact absurd this (by decide)

theorem Delivers.clear {p i t : ℕ} (h : Delivers miso p i t) : (miso (p + i)).getLsbD 7 = false := by
  rw [h.ready]
  decide

/-- What a read does when the card delivers the sector, and when it does not. -/
theorem readSector_cases (sector : BitVec 32) (buf : Addr) (d : Driver) :
    (∃ i t, Delivers miso (d.count + 7) i t ∧ (readSector miso sector buf d).1 = 0
        ∧ d.Released (readSector miso sector buf d).2 sector (i + 1 + (t + 1) + 512 + 2)
        ∧ (readSector miso sector buf d).2.machine.mem =
          d.machine.mem.fill buf (fun k => miso (d.count + 7 + (i + 1 + (t + 1)) + k)) 512)
      ∨ ((∀ i t, ¬Delivers miso (d.count + 7) i t) ∧ (readSector miso sector buf d).1 < 0
        ∧ (∃ n, d.Released (readSector miso sector buf d).2 sector n)
        ∧ (readSector miso sector buf d).2.machine.mem = d.machine.mem) := by
  have hcount : (d.commanded 0x51 (d.sectorArg sector) 0x01).count = d.count + 7 := rfl
  -- first the answer to the command, then the token
  rcases waitR1_cases miso 1000 (d.commanded 0x51 (d.sectorArg sector) 0x01) with
    ⟨i, hi, hbusy, hclear, hcmd⟩ | ⟨hbusy, hcmd⟩
  · rw [hcount] at hbusy hclear hcmd
    by_cases hready : miso (d.count + 7 + i) = 0x00
    · rw [hready] at hcmd
      have htoken := waitToken_cases miso 99999
        ((d.commanded 0x51 (d.sectorArg sector) 0x01).polled (i + 1))
      rw [polled_count, hcount] at htoken
      rcases htoken with ⟨t, ht, hearly, htoken, hwait⟩ | ⟨hnone, hwait⟩
      · left
        rw [polled_polled] at hwait
        rw [readSector_token miso hcmd hwait, readBytes_eq, polled_withMem, polled_polled,
          polled_polled]
        refine ⟨i, t, ⟨hi, hbusy, hready, ht, hearly, htoken⟩, rfl, ?_, ?_⟩
        · exact released_polled miso sector d _ rfl rfl
        · rw [mem_released, polled_count, hcount]
          rfl
      · right
        rw [polled_polled] at hwait
        rw [readSector_noToken miso hcmd hwait]
        refine ⟨?_, Int.negSucc_lt_zero 1, ⟨_, released_polled miso sector d _ rfl rfl⟩, rfl⟩
        intro i' t' h
        -- every delivery has its first answer at the same poll
        have heq := first_clear_unique miso hbusy hclear h.busy (h.clear miso)
        rw [heq] at h
        exact hnone t' h.token_lt h.token
    · right
      rw [readSector_refused miso hcmd hready]
      refine ⟨?_, Int.negSucc_lt_zero 0, ⟨_, released_polled miso sector d _ rfl rfl⟩, rfl⟩
      intro i' t' h
      have heq := first_clear_unique miso hbusy hclear h.busy (h.clear miso)
      rw [heq] at h
      exact hready h.ready
  · right
    rw [hcount] at hbusy
    rw [readSector_refused miso hcmd (by decide)]
    refine ⟨?_, Int.negSucc_lt_zero 0, ⟨1000, released_polled miso sector d 1000 rfl rfl⟩, ?_⟩
    · intro i t h
      have := hbusy i h.ready_lt
      rw [h.clear miso] at this
      exact absurd this (by decide)
    · exact mem_uartPuts _ _

/-- For every sector, every kind of card and every stream of answers: the read sends the command
    with the big-endian address and then only `0xFF`, returns `0` exactly when the first byte with
    bit 7 clear among the next 1000 is `0x00` and `0xFE` is among the 99999 after it, with the 512
    bytes after that one in the buffer and two more taken; otherwise it returns a negative value with
    the memory as it was. The card is deselected in the end, and then clocked once more. -/
theorem read_sector_exact (sector : BitVec 32) (buf : Addr) (d : Driver) :
    (∃ n, d.Released (readSector miso sector buf d).2 sector n)
      ∧ ((readSector miso sector buf d).1 = 0 ↔ ∃ i t, Delivers miso (d.count + 7) i t)
      ∧ (∀ i t, Delivers miso (d.count + 7) i t →
        d.Released (readSector miso sector buf d).2 sector (i + 1 + (t + 1) + 512 + 2)
          ∧ (readSector miso sector buf d).2.machine.mem =
            d.machine.mem.fill buf (fun k => miso (d.count + 7 + (i + 1 + (t + 1)) + k)) 512)
      ∧ ((readSector miso sector buf d).1 ≠ 0 → (readSector miso sector buf d).1 < 0
        ∧ (readSector miso sector buf d).2.machine.mem = d.machine.mem) := by
  rcases readSector_cases miso sector buf d with
    ⟨i, t, hdelivers, hstatus, hreleased, hmem⟩ | ⟨hnone, hstatus, hreleased, hmem⟩
  · refine ⟨⟨_, hreleased⟩, ⟨fun _ => ⟨i, t, hdelivers⟩, fun _ => hstatus⟩, ?_, ?_⟩
    · intro i' t' h
      obtain rfl : i' = i :=
        first_clear_unique miso hdelivers.busy (hdelivers.clear miso) h.busy (h.clear miso)
      obtain rfl : t' = t := by
        rcases Nat.lt_trichotomy t' t with hlt | heq | hlt
        · exact absurd h.token (hdelivers.early t' hlt)
        · exact heq
        · exact absurd hdelivers.token (h.early t hlt)
      exact ⟨hreleased, hmem⟩
    · exact fun hne => absurd hstatus hne
  · refine ⟨hreleased, ⟨fun hzero => ?_, ?_⟩, fun i t h => absurd h (hnone i t), fun _ => ⟨hstatus, hmem⟩⟩
    · rw [hzero] at hstatus
      exact absurd hstatus (lt_irrefl 0)
    · rintro ⟨i, t, h⟩
      exact absurd h (hnone i t)

end PicoSoc.Boot
