import PicoSoc.System.FlashBytes

set_option autoImplicit false

/-! # The read command on the flash line

Bytes 0 to 3 of a transfer are the command `03` and the address, those after them carry the memory
from that address on. `Reading` is the flash after `r` bytes; `OnLine` the engine and the flash when
`k` bytes have been taken and `r` are through. -/

namespace PicoSoc.System

/-- The bytes of the command and of the address. -/
def readByte (a : BitVec 24) : ℕ → BitVec 8
  | 0 => 0x03
  | 1 => a.extractLsb' 16 8
  | 2 => a.extractLsb' 8 8
  | _ => a.extractLsb' 0 8

/-- The tag of byte `k`: where in a word the byte received with it goes. -/
def readTag (k : ℕ) : BitVec 4 := if k < 4 then 0 else BitVec.ofNat 4 (k % 4 + 1)

section

variable (memory : BitVec 24 → BitVec 8)

def dataByte (a : BitVec 24) (n : ℕ) : BitVec 8 := memory (a + BitVec.ofNat 24 n)

/-- The word at `a`, lowest byte first. -/
def flashWord (a : BitVec 24) : BitVec 32 :=
  memory (a + 3) ++ memory (a + 2) ++ memory (a + 1) ++ memory a

namespace SpiFlash

/-- The flash after `r` bytes of a read at `a`. -/
structure Reading (a : BitVec 24) (r : ℕ) (f : SpiFlash) : Prop where
  bitcount : f.bitcount = 0
  bytecount : f.bytecount = r
  poweredUp : f.poweredUp = true
  spiCmd : 1 ≤ r → f.spiCmd = 0x03
  high : 2 ≤ r → r < 4 → f.spiAddr.extractLsb' 16 8 = a.extractLsb' 16 8
  middle : 3 ≤ r → r < 4 → f.spiAddr.extractLsb' 8 8 = a.extractLsb' 8 8
  spiAddr : 4 ≤ r → f.spiAddr = a + BitVec.ofNat 24 (r - 3)
  buffer : 4 ≤ r → f.buffer = dataByte memory a (r - 4)

variable {memory} {a : BitVec 24} {r : ℕ} {f : SpiFlash} {d : BitVec 8}

/-- Before its address a read is a read at any address. -/
theorem Reading.rebase (h : Reading memory a r f) (hr : r ≤ 1) (b : BitVec 24) :
    Reading memory b r f :=
  { h with
    high := fun h2 => absurd h2 (by omega)
    middle := fun h3 => absurd h3 (by omega)
    spiAddr := fun h4 => absurd h4 (by omega)
    buffer := fun h4 => absurd h4 (by omega) }

theorem extract_upper (x : BitVec 24) :
    x.extractLsb' 8 16 = x.extractLsb' 16 8 ++ x.extractLsb' 8 8 := by
  apply BitVec.eq_of_getLsbD_eq
  intro k hk
  simp only [BitVec.getLsbD_append, BitVec.getLsbD_extractLsb']
  by_cases h8 : k < 8
  · simp [h8, show k < 16 by omega]
  · simp [h8, show k < 16 from hk, show 16 + (k - 8) = 8 + k by omega,
      show k - 8 < 8 by omega]

theorem append_slices (x : BitVec 24) : x.extractLsb' 8 16 ++ x.extractLsb' 0 8 = x := by
  apply BitVec.eq_of_getLsbD_eq
  intro k hk
  simp only [BitVec.getLsbD_append, BitVec.getLsbD_extractLsb']
  by_cases h8 : k < 8
  · simp [h8]
  · simp [h8, show 8 + (k - 8) = k by omega, show k - 8 < 16 by omega]

theorem extract_first (x y z : BitVec 8) : (x ++ y ++ z).extractLsb' 16 8 = x := by
  apply BitVec.eq_of_getLsbD_eq
  intro k hk
  rw [BitVec.getLsbD_extractLsb', BitVec.getLsbD_append, if_neg (by omega), BitVec.getLsbD_append,
    if_neg (by omega), show 16 + k - 8 - 8 = k by omega]
  simp [show k < 8 from hk]

theorem extract_second (x y z : BitVec 8) : (x ++ y ++ z).extractLsb' 8 8 = y := by
  apply BitVec.eq_of_getLsbD_eq
  intro k hk
  rw [BitVec.getLsbD_extractLsb', BitVec.getLsbD_append, if_neg (by omega), BitVec.getLsbD_append,
    if_pos (by omega), show 8 + k - 8 = k by omega]
  simp [show k < 8 from hk]

/-! ### `spi_action` in a read, byte by byte -/

theorem finish_command (hb : f.bytecount = 0) :
    f.finish memory 0x03 = { f with buffer := 0x03, bytecount := 1, spiCmd := 0x03 } := by
  simp [finish, spiAction, hb]

section

variable (hp : f.poweredUp = true) (hc : f.spiCmd = 0x03)
include hp hc

theorem finish_high (hb : f.bytecount = 1) :
    f.finish memory d = { f with
      buffer := d, bytecount := 2, spiAddr := d ++ f.spiAddr.extractLsb' 0 16 } := by
  simp [finish, spiAction, hb, hp, hc]

theorem finish_middle (hb : f.bytecount = 2) :
    f.finish memory d = { f with
      buffer := d, bytecount := 3
      spiAddr := f.spiAddr.extractLsb' 16 8 ++ d ++ f.spiAddr.extractLsb' 0 8 } := by
  simp [finish, spiAction, hb, hp, hc]

theorem finish_low (hb : f.bytecount = 3) :
    f.finish memory d = { f with
      buffer := memory (f.spiAddr.extractLsb' 8 16 ++ d), bytecount := 4
      spiAddr := f.spiAddr.extractLsb' 8 16 ++ d + 1 } := by
  simp [finish, spiAction, hb, hp, hc]

theorem finish_data (hb : 4 ≤ f.bytecount) :
    f.finish memory d = { f with
      buffer := memory f.spiAddr, bytecount := f.bytecount + 1, spiAddr := f.spiAddr + 1 } := by
  have h₀ : f.bytecount ≠ 0 := by omega
  have h₁ : f.bytecount ≠ 1 := by omega
  have h₂ : f.bytecount ≠ 2 := by omega
  have h₃ : f.bytecount ≠ 3 := by omega
  have h₄ : 4 ≤ f.bytecount + 1 := by omega
  simp [finish, spiAction, h₀, h₁, h₂, h₃, h₄, hp, hc]

end

/-- One more byte. -/
theorem Reading.finish (h : Reading memory a r f) (hd : r < 4 → d = readByte a r) :
    Reading memory a (r + 1) (f.finish memory d) := by
  have hbyte := h.bytecount
  obtain rfl | hpos := Nat.eq_zero_or_pos r
  · rw [hd (by omega), readByte, finish_command hbyte]
    exact ⟨h.bitcount, rfl, h.poweredUp, fun _ => rfl, fun h2 => absurd h2 (by omega),
      fun h3 => absurd h3 (by omega), fun h4 => absurd h4 (by omega),
      fun h4 => absurd h4 (by omega)⟩
  have hcmd := h.spiCmd hpos
  obtain rfl | rfl | rfl | hr : r = 1 ∨ r = 2 ∨ r = 3 ∨ 4 ≤ r := by omega
  · rw [hd (by omega), readByte, finish_high h.poweredUp hcmd hbyte]
    exact ⟨h.bitcount, rfl, h.poweredUp, fun _ => hcmd,
      fun _ _ => BitVec.extractLsb'_append_eq_left, fun h3 => absurd h3 (by omega),
      fun h4 => absurd h4 (by omega), fun h4 => absurd h4 (by omega)⟩
  · rw [hd (by omega), readByte, finish_middle h.poweredUp hcmd hbyte]
    refine ⟨h.bitcount, rfl, h.poweredUp, fun _ => hcmd, fun _ _ => ?_, fun _ _ => ?_,
      fun h4 => absurd h4 (by omega), fun h4 => absurd h4 (by omega)⟩
    · exact (extract_first ..).trans (h.high le_rfl (by omega))
    · exact extract_second ..
  · have haddr : f.spiAddr.extractLsb' 8 16 ++ a.extractLsb' 0 8 = a := by
      rw [extract_upper, h.high (by omega) (by omega), h.middle le_rfl (by omega),
        ← extract_upper, append_slices]
    have hd : d = a.extractLsb' 0 8 := hd (by omega)
    rw [hd, finish_low h.poweredUp hcmd hbyte, haddr]
    exact ⟨h.bitcount, rfl, h.poweredUp, fun _ => hcmd, fun _ h4 => absurd h4 (by omega),
      fun _ h4 => absurd h4 (by omega), fun _ => rfl, fun _ => by simp [dataByte]⟩
  · rw [finish_data h.poweredUp hcmd (by omega)]
    refine ⟨h.bitcount, by rw [hbyte], h.poweredUp, fun _ => hcmd, fun _ h4 => absurd h4 (by omega),
      fun _ h4 => absurd h4 (by omega), fun _ => ?_, fun _ => ?_⟩
    · rw [h.spiAddr hr, show r + 1 - 3 = r - 3 + 1 by omega, BitVec.ofNat_add]
      exact BitVec.add_assoc ..
    · rw [h.spiAddr hr, dataByte, show r + 1 - 4 = r - 3 by omega]

end SpiFlash

/-! ## The engine and the flash in a read -/

namespace FlashLine

/-- `k` bytes of a read at `a` have been taken, `r` are through. -/
inductive OnLine (a : BitVec 24) (x : Xfer) (f : SpiFlash) : ℕ → ℕ → Prop
  | waiting (k : ℕ) (line : Waiting (decide (k = 0)) x f) (flash : f.Reading memory a k) :
      OnLine a x f k k
  | sending (r : ℕ) (d : BitVec 8) (f₀ : SpiFlash) (j : ℕ) (clk : Bool)
      (line : Sending memory d (readTag r) f₀ j clk x f) (flash : f₀.Reading memory a r)
      (data : r < 4 → d = readByte a r) : OnLine a x f (r + 1) r

namespace OnLine

variable {memory} {a : BitVec 24} {x : Xfer} {f : SpiFlash} {k r : ℕ} {i : XferIn}

theorem poweredUp (h : OnLine memory a x f k r) : f.poweredUp = true := by
  obtain ⟨_, _, hflash⟩ | ⟨_, d, f₀, j, clk, hline, hflash, hdata⟩ := h
  · exact hflash.poweredUp
  · rw [hline.flash]
    split_ifs
    · exact (hflash.finish hdata).poweredUp
    · exact hflash.poweredUp

theorem rebase (h : OnLine memory a x f k r) (hk : k ≤ 1) (b : BitVec 24) :
    OnLine memory b x f k r := by
  obtain ⟨_, hline, hflash⟩ | ⟨_, d, f₀, j, clk, hline, hflash, hdata⟩ := h
  · exact .waiting k hline (hflash.rebase hk b)
  · have hr : r = 0 := by omega
    subst hr
    exact .sending 0 d f₀ j clk hline (hflash.rebase (by omega) b) hdata

theorem le (h : OnLine memory a x f k r) : r ≤ k ∧ k ≤ r + 1 := by
  cases h <;> omega

theorem io0Oe (h : OnLine memory a x f k r) : x.io0Oe = true := by
  obtain ⟨_, hline, _⟩ | ⟨_, _, _, _, _, hline, _⟩ := h
  · exact hline.line.io0Oe
  · exact hline.line.io0Oe

/-- What the engine gives out is the next byte of the read. -/
theorem received (h : OnLine memory a x f k r) (hv : x.doutValid i = true) :
    k = r + 1 ∧ x.xferTagQ = readTag r ∧ (4 ≤ r → x.ibuffer = dataByte memory a (r - 4)) := by
  obtain ⟨_, hline, hflash⟩ | ⟨_, d, f₀, j, clk, hline, hflash, hdata⟩ := h
  · rw [hline.doutValid] at hv
    exact absurd hv (by simp)
  · rw [hline.doutValid] at hv
    simp only [Bool.and_eq_true, decide_eq_true_eq] at hv
    obtain ⟨⟨rfl, rfl⟩, -⟩ := hv
    refine ⟨rfl, hline.xferTagQ rfl, fun hr => ?_⟩
    rw [hline.received, hflash.buffer hr]

/-- A cycle without reset. -/
theorem step (h : OnLine memory a x f k r) (hp : i.Plain) (hr : i.resetn = true)
    (hio : x.flashCsb = false → x.flashClk = false → i.io1 = f.io1)
    (htag : i.dinValid = true → i.dinTag = readTag k)
    (hdata : i.dinValid = true → k < 4 → i.dinData = readByte a k) :
    OnLine memory a (x.step i) (flashAfter memory i x f) (k + (x.dinReady i).toNat)
      (r + (x.doutValid i).toNat) := by
  obtain ⟨_, hline, hflash⟩ | ⟨_, d, f₀, j, clk, hline, hflash, hsent⟩ := h
  · rw [hline.doutValid, Bool.toNat_false, Nat.add_zero]
    cases hv : i.dinValid with
    | true =>
      have hready : x.dinReady i = true := by simp [Xfer.dinReady, hv, hr, hline.next_fetch]
      have hnext := sending_of_take memory hline.line hline.bitcount hline.next_fetch hp
        hr hv
      rw [hready, Bool.toNat_true]
      rw [htag hv] at hnext
      exact .sending k i.dinData f 0 false hnext hflash (hdata hv)
    | false =>
      have hready : x.dinReady i = false := by simp [Xfer.dinReady, hv]
      obtain ⟨hwait, hsame⟩ := hline.rest memory hr hv
      rw [hready, Bool.toNat_false, Nat.add_zero]
      exact .waiting k hwait (by rwa [hsame])
  · -- the transfer takes and gives a byte in the last cycle of its last bit only
    have hready : x.dinReady i = (i.dinValid && (decide (j = 7) && clk)) := by
      simp [Xfer.dinReady, hline.next_fetch, hr]
    have hvalid : x.doutValid i = (decide (j = 7) && clk) := by simp [hline.doutValid, hr]
    rw [hready, hvalid]
    cases clk with
    | false =>
      simp only [Bool.and_false, Bool.toNat_false, Nat.add_zero]
      exact .sending r d f₀ j true (hline.step_low hr (hio hline.flashCsb hline.flashClk)) hflash hsent
    | true =>
      by_cases hj : j = 7
      · subst hj
        have hthrough := hflash.finish hsent
        cases hv : i.dinValid with
        | true =>
          have hnext := sending_of_take memory hline.line hline.bitcount
            (by simp [hline.next_fetch]) hp hr hv
          rw [htag hv] at hnext
          exact .sending (r + 1) i.dinData f 0 false hnext (hline.sent ▸ hthrough) (hdata hv)
        | false =>
          obtain ⟨hwait, hsame⟩ := hline.rest hr hv
          exact .waiting (r + 1) hwait (by rwa [hsame])
      · simp only [hj, decide_false, Bool.false_and, Bool.and_false, Bool.toNat_false, Nat.add_zero]
        have hbound := hline.bound
        exact .sending r d f₀ (j + 1) false (hline.step_high (by omega) hr) hflash hsent

end OnLine

end FlashLine

end

end PicoSoc.System
