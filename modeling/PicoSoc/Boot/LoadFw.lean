import PicoSoc.Boot.Bootloader

set_option autoImplicit false

/-! # What `load_fw` loads

The loop invariant relates `written`, the sector number and the number of reads to the part of the
image that is already in place. -/

namespace PicoSoc.Boot

open Bytes

/-! ## The card and the image on it -/

variable (L : Layout) (sd : Sd)

/-- The bytes of the card from sector 2048 on. -/
def cardByte (k : ℕ) : Byte := sd.content (appStartSector + BitVec.ofNat 32 (k / 512)) (k % 512)

/-- The size in the header on the card. -/
def imageSize : ℕ := (ofBytesLE 4 (cardByte sd)).toNat

def SizeOk (sz : ℕ) : Prop := 1 ≤ sz ∧ sz ≤ 61440

/-- The sectors of an image: the header sector has room for 508 bytes. -/
def sectorCount (sz : ℕ) : ℕ := 1 + (sz - 508 + 511) / 512

/-- The reads `c … c + n - 1` succeed. -/
def AllRead (c n : ℕ) : Prop := ∀ i < n, sd.readStatus (c + i) = 0

/-- The first `n` bytes of the image are in place. -/
def Loaded (n : ℕ) (m : Memory) : Prop :=
  ∀ k < n, m.byte (appBase + BitVec.ofNat 32 k) = cardByte sd (4 + k)

/-- An address `load_fw` may store to: in `sbuf`, or in the image. -/
def Allowed (sz : ℕ) (a : Addr) : Prop :=
  InRegion L.sbuf 512 a ∨ (SizeOk sz ∧ InRegion appBase sz a)

theorem le32_eq (b : ℕ → Byte) : le32 b = ofBytesLE 4 b := by
  apply eq_of_byteLE 4 rfl
  intro i hi
  have h₀ := byteLE_shifted (b 0) (show 8 * i + 8 ≤ 32 by omega) (k := 0)
  rw [byteLE_ofBytesLE _ hi, le32, byteLE_or, byteLE_or, byteLE_or,
    byteLE_shifted (b 1) (k := 1) (by omega), byteLE_shifted (b 2) (k := 2) (by omega),
    byteLE_shifted (b 3) (k := 3) (by omega)]
  rw [BitVec.shiftLeft_zero] at h₀
  rw [h₀]
  interval_cases i <;> simp

variable {L sd}

/-! ## One sector -/

theorem appBase_toNat : appBase.toNat = 0x10000 := rfl

theorem inApp_iff {n : ℕ} (hn : n ≤ 61440) (a : Addr) :
    InRegion appBase n a ↔ 0x10000 ≤ a.toNat ∧ a.toNat < 0x10000 + n := by
  rw [inRegion_iff (by rw [appBase_toNat]; omega), appBase_toNat]

theorem inSbuf_iff (a : Addr) :
    InRegion L.sbuf 512 a ↔ L.sbuf.toNat ≤ a.toNat ∧ a.toNat < L.sbuf.toNat + 512 :=
  inRegion_iff (by have := L.upper; omega) a

theorem appByte_toNat {k : ℕ} (hk : k ≤ 61440) : (appBase + BitVec.ofNat 32 k).toNat = 0x10000 + k := by
  rw [BitVec.toNat_add, appBase_toNat, BitVec.toNat_ofNat]
  omega

/-- The load area and the buffer have no byte in common. -/
theorem not_inSbuf {k : ℕ} (hk : k < 61440) : ¬ InRegion L.sbuf 512 (appBase + BitVec.ofNat 32 k) := by
  have hlower := L.lower
  rw [inSbuf_iff, appByte_toNat (by omega)]
  omega

/-- A successful read leaves the sector in the buffer, and the load area as it was. -/
theorem sdReadSector_ok {m : Machine} (sector : BitVec 32) (hok : sd.readStatus m.reads = 0) :
    (sdReadSector sd sector L.sbuf m).2.mem = m.mem.fill L.sbuf (sd.content sector) 512 := by
  simp [sdReadSector, hok]

theorem loaded_fill {n : ℕ} (hn : n ≤ 61440) {m : Memory} (h : Loaded sd n m) (f : ℕ → Byte) :
    Loaded sd n (m.fill L.sbuf f 512) := by
  intro k hk
  rw [Memory.byte_fill_out m f (by decide) (not_inSbuf (by omega))]
  exact h k hk

/-- The next bytes of the image are copied from the buffer to their place. -/
theorem loaded_copy {m : Memory} {written chunk : BitVec 32} {o : ℕ}
    (hsize : written.toNat + chunk.toNat ≤ 61440) (hbuf : o + chunk.toNat ≤ 512)
    (h : Loaded sd written.toNat m)
    (hsrc : ∀ i < chunk.toNat, m.byte (L.sbuf + BitVec.ofNat 32 o + BitVec.ofNat 32 i) =
      cardByte sd (4 + (written.toNat + i))) :
    Loaded sd (written.toNat + chunk.toNat)
        (m.copy (appBase + written) (L.sbuf + BitVec.ofNat 32 o) chunk.toNat) ∧
      Stores (InRegion appBase (written.toNat + chunk.toNat)) m
        (m.copy (appBase + written) (L.sbuf + BitVec.ofNat 32 o) chunk.toNat) := by
  have hlower := L.lower
  have hupper := L.upper
  have hdst : (appBase + written).toNat = 0x10000 + written.toNat := by
    rw [BitVec.toNat_add, appBase_toNat]
    omega
  have hsrcBase : (L.sbuf + BitVec.ofNat 32 o).toNat = L.sbuf.toNat + o := by
    rw [BitVec.toNat_add, BitVec.toNat_ofNat]
    omega
  have hfits : chunk.toNat ≤ 2 ^ 32 := by omega
  have hdstIff (a : Addr) := inRegion_iff (show (appBase + written).toNat + chunk.toNat ≤ 2 ^ 32 by
    omega) a
  have hapart : Apart (L.sbuf + BitVec.ofNat 32 o) chunk.toNat (appBase + written) chunk.toNat := by
    intro a ha hb
    rw [inRegion_iff (by omega)] at ha
    rw [hdstIff] at hb
    omega
  rw [Memory.copy_eq_fill m hfits hapart]
  constructor
  · intro k hk
    by_cases hold : k < written.toNat
    · rw [Memory.byte_fill_out _ _ hfits]
      · exact h k hold
      · rw [hdstIff, appByte_toNat (by omega)]
        omega
    · obtain ⟨i, rfl⟩ : ∃ i, k = written.toNat + i := ⟨k - written.toNat, by omega⟩
      have hplace : appBase + BitVec.ofNat 32 (written.toNat + i) =
          appBase + written + BitVec.ofNat 32 i := by
        rw [BitVec.ofNat_add, BitVec.ofNat_toNat, BitVec.setWidth_eq, BitVec.add_assoc]
      rw [hplace, Memory.byte_fill_in _ _ _ hfits (by omega)]
      exact hsrc i (by omega)
  · refine (Memory.stores_fill m _ _ hfits).mono fun a ha => ?_
    rw [hdstIff] at ha
    rw [inApp_iff hsize]
    omega

theorem cardByte_sector {j i : ℕ} (hi : i < 512) :
    cardByte sd (512 * j + i) = sd.content (appStartSector + BitVec.ofNat 32 j) i := by
  rw [cardByte, show (512 * j + i) / 512 = j by omega, show (512 * j + i) % 512 = i by omega]

/-! ## The loop -/

theorem allRead_succ (c n : ℕ) :
    AllRead sd c (n + 1) ↔ sd.readStatus c = 0 ∧ AllRead sd (c + 1) n := by
  constructor
  · intro h
    refine ⟨h 0 (Nat.succ_pos n), fun i hi => ?_⟩
    rw [show c + 1 + i = c + (i + 1) by omega]
    exact h (i + 1) (by omega)
  · rintro ⟨h₀, h⟩ i hi
    cases i with
    | zero => exact h₀
    | succ i =>
        rw [show c + (i + 1) = c + 1 + i by omega]
        exact h i (by omega)

theorem chunkSize_toNat {sz written : BitVec 32} (h : written.toNat ≤ sz.toNat) :
    (chunkSize sz written).toNat = min 512 (sz.toNat - written.toNat) := by
  have hsub : (sz - written).toNat = sz.toNat - written.toNat := BitVec.toNat_sub_of_le h
  have h512 : (512 : BitVec 32).toNat = 512 := rfl
  unfold chunkSize
  split
  · next hlt =>
    rw [BitVec.lt_def, hsub, h512] at hlt
    rw [h512]
    omega
  · next hge =>
    rw [BitVec.lt_def, hsub, h512] at hge
    rw [hsub]
    omega

/-- Before its iteration `j` the loop has placed `508 + 512 * j` bytes; `n` sectors are left. -/
theorem loadRest_spec {sz : BitVec 32} (hsz : SizeOk sz.toNat) (n : ℕ) {j : ℕ}
    {written sector : BitVec 32} (hwritten : written.toNat = min sz.toNat (508 + 512 * j))
    (hsector : sector = appStartSector + BitVec.ofNat 32 (j + 1))
    (hn : n = (sz.toNat - 508 + 511) / 512 - j) {m : Machine} (hm : Loaded sd written.toNat m.mem) :
    ((loadRest L sd sz written sector m).1 = 0 ↔ AllRead sd m.reads n) ∧
      ((loadRest L sd sz written sector m).1 = 0 →
        Loaded sd sz.toNat (loadRest L sd sz written sector m).2.mem) ∧
      Stores (Allowed L sz.toNat) m.mem (loadRest L sd sz written sector m).2.mem := by
  have hbound : sz.toNat ≤ 61440 := hsz.2
  induction n generalizing j written sector m with
  | zero =>
      have hend : written = sz := by
        apply BitVec.eq_of_toNat_eq
        omega
      have hstop : ¬ written < sz := by rw [hend]; exact BitVec.lt_irrefl sz
      rw [loadRest, if_neg hstop]
      refine ⟨⟨fun _ i hi => absurd hi (Nat.not_lt_zero i), fun _ => rfl⟩, fun _ => ?_, ?_⟩
      · rw [hend] at hm
        simpa using hm
      · simpa using Stores.refl _ m.mem
  | succ n ih =>
      have hlt : written < sz := by rw [BitVec.lt_def]; omega
      have hplaced : written.toNat = 508 + 512 * j := by omega
      have hchunk := chunkSize_toNat (show written.toNat ≤ sz.toNat by omega)
      have hfill := Memory.stores_fill m.mem L.sbuf (sd.content sector) (show 512 ≤ 2 ^ 32 by decide)
      rw [loadRest, if_pos hlt, allRead_succ]
      -- the sector is read and placed behind the bytes before it, or the loop ends
      by_cases hok : sd.readStatus m.reads = 0
      · have hread : (sdReadSector sd sector L.sbuf m).1 = 0 := hok
        rw [if_neg (not_not.2 hread), sdReadSector_ok sector hok]
        have hkept := loaded_fill (L := L) (by omega) hm (sd.content sector)
        -- the image begins behind the four bytes of its size
        have hbuffer : ∀ i < (chunkSize sz written).toNat,
            (m.mem.fill L.sbuf (sd.content sector) 512).byte
                (L.sbuf + BitVec.ofNat 32 0 + BitVec.ofNat 32 i) =
              cardByte sd (4 + (written.toNat + i)) := by
          intro i hi
          rw [BitVec.add_zero, Memory.byte_fill_in _ _ _ (by decide) (by omega), hsector,
            show 4 + (written.toNat + i) = 512 * (j + 1) + i by omega, cardByte_sector (by omega)]
        have hcopy := loaded_copy (show written.toNat + (chunkSize sz written).toNat ≤ 61440 by omega)
          (by omega) hkept hbuffer
        rw [BitVec.add_zero] at hcopy
        have hsum : (written + chunkSize sz written).toNat =
            written.toNat + (chunkSize sz written).toNat := by
          rw [BitVec.toNat_add]
          omega
        have hnextSector : sector + 1 = appStartSector + BitVec.ofNat 32 (j + 1 + 1) := by
          rw [hsector, BitVec.add_assoc, BitVec.ofNat_add (j + 1) 1]
          rfl
        have hnext := @ih (j + 1) (written + chunkSize sz written) (sector + 1) (by omega)
          hnextSector (by omega) ((sdReadSector sd sector L.sbuf m).2.withMem
            ((m.mem.fill L.sbuf (sd.content sector) 512).copy (appBase + written) L.sbuf
              (chunkSize sz written).toNat)) (by rw [hsum]; exact hcopy.1)
        refine ⟨?_, hnext.2.1, ?_⟩
        · rw [hnext.1]
          exact (and_iff_right hok).symm
        · refine ((hfill.mono fun a ha => .inl ha).trans
            (hcopy.2.mono fun a ha => .inr ⟨hsz, ha.mono (by omega)⟩)).trans hnext.2.2
      · have hread : (sdReadSector sd sector L.sbuf m).1 ≠ 0 := hok
        rw [if_pos hread]
        have hcode : (-3 : Int) ≠ 0 := by decide
        refine ⟨⟨fun h => absurd h hcode, fun h => absurd h.1 hok⟩, fun h => absurd h hcode, ?_⟩
        simpa [sdReadSector, hok] using Stores.refl _ m.mem

/-! ## The whole image -/

/-- The header in the buffer is the one on the card. -/
theorem headerSize_eq {m : Machine} {mem : Memory}
    (hm : m.mem = mem.fill L.sbuf (sd.content appStartSector) 512) :
    (headerSize L m).toNat = imageSize sd := by
  have hbytes : ofBytesLE 4 (fun i => m.mem.byte (L.sbuf + BitVec.ofNat 32 i)) =
      ofBytesLE 4 (cardByte sd) := by
    apply eq_of_byteLE 4 rfl
    intro i hi
    rw [byteLE_ofBytesLE _ hi, byteLE_ofBytesLE _ hi, hm,
      Memory.byte_fill_in _ _ _ (by decide) (by omega)]
    have hcard : cardByte sd (512 * 0 + i) = _ := cardByte_sector (by omega)
    rw [BitVec.add_zero, Nat.mul_zero, Nat.zero_add] at hcard
    exact hcard.symm
  rw [headerSize, le32_eq, hbytes, imageSize]

theorem sizeOk_iff (sz : BitVec 32) : SizeOk sz.toNat ↔ ¬ (sz = 0 ∨ maxFwBytes < sz) := by
  have hmax : maxFwBytes.toNat = 61440 := rfl
  have hzero : sz = 0 ↔ sz.toNat = 0 := by
    rw [← BitVec.toNat_inj]
    rfl
  rw [SizeOk, hzero, BitVec.lt_def, hmax]
  omega

/-- What the sector of the header holds of the image. -/
theorem firstChunk_toNat (sz : BitVec 32) :
    (if sz < 508 then sz else 508).toNat = min sz.toNat 508 := by
  have h508 : (508 : BitVec 32).toNat = 508 := rfl
  split
  · next h =>
    rw [BitVec.lt_def, h508] at h
    omega
  · next h =>
    rw [BitVec.lt_def, h508] at h
    rw [h508]
    omega

theorem loadFw_spec (m : Machine) :
    ((loadFw L sd m).1 = 0 ↔
        SizeOk (imageSize sd) ∧ AllRead sd m.reads (sectorCount (imageSize sd))) ∧
      ((loadFw L sd m).1 = 0 → Loaded sd (imageSize sd) (loadFw L sd m).2.mem) ∧
      Stores (Allowed L (imageSize sd)) m.mem (loadFw L sd m).2.mem := by
  have hfill := Memory.stores_fill m.mem L.sbuf (sd.content appStartSector)
    (show 512 ≤ 2 ^ 32 by decide)
  have hcount : sectorCount (imageSize sd) = (imageSize sd - 508 + 511) / 512 + 1 :=
    Nat.add_comm _ _
  rw [hcount, allRead_succ]
  -- the messages on the console change neither the memory nor the card
  generalize hprinted : uartPuts "... " (uartPuthw appStartSector (uartPuts "  Sector 0x" m)) = m₁
  have hmem₁ : m₁.mem = m.mem := by simp [← hprinted]
  have hreads₁ : m₁.reads = m.reads := by simp [← hprinted]
  rw [loadFw, hprinted]
  by_cases hok : sd.readStatus m.reads = 0
  · have hread : (sdReadSector sd appStartSector L.sbuf m₁).1 = 0 := by rw [← hreads₁] at hok; exact hok
    have hbuffer : (uartPuts "OK\r\n" (sdReadSector sd appStartSector L.sbuf m₁).2).mem =
        m.mem.fill L.sbuf (sd.content appStartSector) 512 := by
      rw [mem_uartPuts, sdReadSector_ok _ (by rw [hreads₁]; exact hok), hmem₁]
    have hheader := headerSize_eq hbuffer
    dsimp only
    rw [if_neg (not_not.2 hread), ← hheader]
    generalize hm₂ : uartPuts "OK\r\n" (sdReadSector sd appStartSector L.sbuf m₁).2 = m₂ at hbuffer
    have hreads₂ : m₂.reads = m.reads + 1 := by
      rw [← hm₂, reads_uartPuts, ← hreads₁]
      rfl
    generalize headerSize L m₂ = sz
    generalize hm₃ : uartPuts "\r\n" (uartPuthw sz (uartPuts "  FW size=0x" m₂)) = m₃
    have hmem₃ : m₃.mem = m.mem.fill L.sbuf (sd.content appStartSector) 512 := by
      rw [← hm₃, ← hbuffer]
      simp
    have hreads₃ : m₃.reads = m.reads + 1 := by
      rw [← hm₃, ← hreads₂]
      simp
    have hstores : Stores (Allowed L sz.toNat) m.mem
        (m.mem.fill L.sbuf (sd.content appStartSector) 512) := hfill.mono fun a ha => .inl ha
    -- a bad size ends the load before a byte is placed
    by_cases hbad : sz = 0 ∨ maxFwBytes < sz
    · have hnot : ¬ SizeOk sz.toNat := fun h => (sizeOk_iff sz).1 h hbad
      have hcode : (-2 : Int) ≠ 0 := by decide
      rw [if_pos hbad]
      refine ⟨⟨fun h => absurd h hcode, fun h => absurd h.1 hnot⟩, fun h => absurd h hcode, ?_⟩
      rw [mem_uartPuts, hmem₃]
      exact hstores
    · have hsz : SizeOk sz.toNat := (sizeOk_iff sz).2 hbad
      rw [if_neg hbad]
      generalize hfirst : (if sz < 508 then sz else 508) = written
      have hwritten : written.toNat = min sz.toNat 508 := by rw [← hfirst, firstChunk_toNat]
      have hbound : sz.toNat ≤ 61440 := hsz.2
      have hbytes : ∀ i < written.toNat,
          m₃.mem.byte (L.sbuf + BitVec.ofNat 32 4 + BitVec.ofNat 32 i) =
            cardByte sd (4 + ((0 : BitVec 32).toNat + i)) := by
        intro i hi
        have hcard : cardByte sd (512 * 0 + (4 + i)) = _ := cardByte_sector (by omega)
        rw [hmem₃, BitVec.add_assoc, ← BitVec.ofNat_add, Memory.byte_fill_in _ _ _ (by decide)
          (by omega)]
        rw [BitVec.add_zero, Nat.mul_zero, Nat.zero_add] at hcard
        rw [← hcard]
        congr 2
        exact (Nat.zero_add i).symm
      have hcopy := @loaded_copy L sd m₃.mem 0 written 4
        (show 0 + written.toNat ≤ 61440 by omega) (show 4 + written.toNat ≤ 512 by omega)
        (fun k hk => absurd hk (Nat.not_lt_zero k)) hbytes
      have hzero : appBase + (0 : BitVec 32) = appBase := BitVec.add_zero _
      have hfour : L.sbuf + BitVec.ofNat 32 4 = L.sbuf + 4 := rfl
      have hsum : (0 : BitVec 32).toNat + written.toNat = written.toNat := Nat.zero_add _
      rw [hzero, hfour, hsum] at hcopy
      -- the loop over the other sectors, from the bytes that came with the header
      have hrest := @loadRest_spec L sd sz hsz ((sz.toNat - 508 + 511) / 512) 0 written
        (appStartSector + 1) (by omega) rfl rfl
        (m₃.withMem (m₃.mem.copy appBase (L.sbuf + 4) written.toNat)) hcopy.1
      refine ⟨?_, hrest.2.1, ?_⟩
      · rw [hrest.1, reads_withMem, hreads₃]
        exact ⟨fun h => ⟨hsz, hok, h⟩, fun h => h.2.2⟩
      · rw [← hmem₃] at hstores
        exact (hstores.trans (hcopy.2.mono fun a ha => .inr ⟨hsz, ha.mono (by omega)⟩)).trans
          hrest.2.2
  · have hread : (sdReadSector sd appStartSector L.sbuf m₁).1 ≠ 0 := by
      rw [← hreads₁] at hok
      exact hok
    have hcode : (-1 : Int) ≠ 0 := by decide
    rw [if_pos hread]
    refine ⟨⟨fun h => absurd h hcode, fun h => absurd h.2.1 hok⟩, fun h => absurd h hcode, ?_⟩
    have hkept : (sdReadSector sd appStartSector L.sbuf m₁).2.mem = m.mem := by
      simp [sdReadSector, hreads₁, hok, hmem₁]
    rw [hkept]
    exact Stores.refl _ m.mem

/-! ## The jump -/

/-- The jumps taken so far. -/
def Machine.jumps (m : Machine) : List Addr :=
  m.out.filterMap fun e => match e with
    | .jump a => some a
    | _ => none

@[simp] theorem jumps_emit_tx (m : Machine) (c : Char) : (m.emit (.tx c)).jumps = m.jumps := by
  simp [Machine.jumps, Machine.emit]

@[simp] theorem jumps_emit_led (m : Machine) (v : BitVec 8) : (m.emit (.led v)).jumps = m.jumps := by
  simp [Machine.jumps, Machine.emit]

@[simp] theorem jumps_emit_jump (m : Machine) (a : Addr) :
    (m.emit (.jump a)).jumps = m.jumps ++ [a] := by
  simp [Machine.jumps, Machine.emit]

@[simp] theorem jumps_uartPuts (s : String) (m : Machine) : (uartPuts s m).jumps = m.jumps := by
  unfold uartPuts
  induction s.toList generalizing m with
  | nil => rfl
  | cons c cs ih => exact (ih (uartPutc c m)).trans (jumps_emit_tx m c)

@[simp] theorem jumps_uartPuthw (v : BitVec 32) (m : Machine) : (uartPuthw v m).jumps = m.jumps := by
  simp only [uartPuthw, uartPuth, uartPutc, jumps_emit_tx]

@[simp] theorem jumps_withMem (m : Machine) (mem : Memory) : (m.withMem mem).jumps = m.jumps := rfl

@[simp] theorem jumps_sdReadSector (sector : BitVec 32) (buf : Addr) (m : Machine) :
    (sdReadSector sd sector buf m).2.jumps = m.jumps := rfl

theorem jumps_loadRest (sz written sector : BitVec 32) (m : Machine) :
    (loadRest L sd sz written sector m).2.jumps = m.jumps := by
  fun_induction loadRest L sd sz written sector m with
  | case1 => rfl
  | case2 written sector m hlt r hok chunk ih =>
      rw [ih]
      rfl
  | case3 => simp

theorem jumps_loadFw (m : Machine) : (loadFw L sd m).2.jumps = m.jumps := by
  rw [loadFw]
  dsimp only
  split_ifs
  · simp
  · simp
  all_goals
    rw [jumps_loadRest]
    simp

theorem jumps_atLoad (m : Machine) : (atLoad m).jumps = m.jumps := by
  simp [atLoad, banner]

theorem jumps_bootloaderMain (m : Machine) :
    (bootloaderMain L sd m).jumps =
      m.jumps ++ if sd.initStatus = 0 ∧ (loadFw L sd (atLoad m)).1 = 0 then [appBase] else [] := by
  rw [bootloaderMain]
  by_cases hinit : sd.initStatus = 0
  · rw [if_neg (not_not.2 hinit)]
    by_cases hload : (loadFw L sd (atLoad m)).1 = 0
    · simp [hinit, hload, jumps_loadFw, jumps_atLoad]
    · simp [hload, jumps_loadFw, jumps_atLoad]
  · simp [hinit, banner]

theorem mem_bootloaderMain (m : Machine) (hinit : sd.initStatus = 0) :
    (bootloaderMain L sd m).mem = (loadFw L sd (atLoad m)).2.mem := by
  rw [bootloaderMain, if_neg (not_not.2 hinit)]
  dsimp only
  split <;> simp

/-- `load_fw` loads the image on the card and stores nowhere else; `bootloader_main` jumps once it
has returned `0`, and only then. -/
theorem load_fw_exact (L : Layout) (sd : Sd) (m : Machine) :
    ((loadFw L sd m).1 = 0 ↔
        SizeOk (imageSize sd) ∧ AllRead sd m.reads (sectorCount (imageSize sd))) ∧
      ((loadFw L sd m).1 = 0 → Loaded sd (imageSize sd) (loadFw L sd m).2.mem) ∧
      Stores (Allowed L (imageSize sd)) m.mem (loadFw L sd m).2.mem ∧
      (loadFw L sd m).2.jumps = m.jumps ∧
      (bootloaderMain L sd m).jumps =
        m.jumps ++
          (if sd.initStatus = 0 ∧ (loadFw L sd (atLoad m)).1 = 0 then [appBase] else []) ∧
      ((bootloaderMain L sd m).jumps ≠ m.jumps →
        Loaded sd (imageSize sd) (bootloaderMain L sd m).mem) := by
  obtain ⟨hreturn, hloaded, hstores⟩ := @loadFw_spec L sd m
  refine ⟨hreturn, hloaded, hstores, jumps_loadFw m, jumps_bootloaderMain m, fun hjump => ?_⟩
  rw [jumps_bootloaderMain] at hjump
  split at hjump
  · next h =>
    rw [mem_bootloaderMain m h.1]
    exact (loadFw_spec (atLoad m)).2.1 h.2
  · simp at hjump

end PicoSoc.Boot
