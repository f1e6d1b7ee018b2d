import Zenbite.Fat.Alloc
import Zenbite.Fat.Directory

/-! fs_format (fat.c): FAT16 below 512 MiB, FAT32 from there on, and what fs_mount
makes of the result. -/

namespace Zenbite.Fat

open Memory VolState

def blankSector : Buffer := fun _ => 0

def ascii (s : String) : List UInt8 := s.toList.map fun c => UInt8.ofNat c.toNat

/-- `vlabel`: eleven characters, upper case, filled with blanks; `label` may be
NULL. -/
def volumeLabel (label : Option (List UInt8)) : List UInt8 :=
  (List.range 11).map fun i => toUpper (((label.getD []).takeWhile (· ≠ 0)).getD i 0x20)

/-! format_fat16. -/

def spc16 (total : Nat) : Nat :=
  if total < 16 * 2048 then 4 else if total < 64 * 2048 then 8 else 16

/-- `fat_secs`: reserved 4, root 16 sectors, two FATs. -/
def fatSecs16 (total : Nat) : Nat :=
  let den := spc16 total * 128 + 2
  let secs := u32 (u32 (total - 4 - 16 + 8) + den - 1) / den
  if secs = 0 then 1 else secs

def boot16 (hidden : Nat) (label : Option (List UInt8)) (total : Nat) : Buffer :=
  let b := poke blankSector 0 [0xEB, 0x3C, 0x90]
  let b := poke b 3 (ascii "ZENBITE ")
  let b := poke b 11 (bytesOf sectorSize 2)
  let b := poke b 13 (bytesOf (spc16 total) 1)
  let b := poke b 14 (bytesOf 4 2)
  let b := poke b 16 [2]
  let b := poke b 17 (bytesOf 256 2)
  let b := if total ≤ 0xFFFF then poke b 19 (bytesOf total 2) else b
  let b := poke b 21 [0xF8]
  let b := poke b 22 (bytesOf (fatSecs16 total) 2)
  let b := poke b 24 [63]
  let b := poke b 26 [16]
  let b := poke b 28 (bytesOf hidden 4)
  let b := if 0xFFFF < total then poke b 32 (bytesOf total 4) else b
  let b := poke b 36 [0x80]
  let b := poke b 38 [0x29]
  let b := poke b 39 [0x37, 0x12, 0x34, 0x56]
  let b := poke b 43 (volumeLabel label)
  let b := poke b 54 (ascii "FAT16   ")
  poke b 510 [0x55, 0xAA]

def fatFirst16 : Buffer := poke blankSector 0 [0xF8, 0xFF, 0xFF, 0xFF]

/-- Sectors `s, s+1, ..` of both FATs are cleared; `n` of them are left. No result
is looked at. -/
def clearFats (first second : Nat) : Nat → Nat → Disk → Disk
  | 0, _, d => d
  | n + 1, s, d =>
    clearFats first second n (s + 1)
      ((d.write (first + s) 1 blankSector).2.write (second + s) 1 blankSector).2

def clearSectors (lba : Nat) : Nat → Nat → Disk → Disk
  | 0, _, d => d
  | n + 1, s, d => clearSectors lba n (s + 1) (d.write (lba + s) 1 blankSector).2

def formatFat16 (hidden : Nat) (label : Option (List UInt8)) (total : Nat) (d : Disk) :
    Int × Disk :=
  let secs := fatSecs16 total
  let b := d.write 0 1 (boot16 hidden label total)
  if b.1 < 0 then (-1, b.2)
  else
    let f := b.2.write 4 1 fatFirst16
    if f.1 < 0 then (-1, f.2)
    else
      let m := f.2.write (4 + secs) 1 fatFirst16
      if m.1 < 0 then (-1, m.2)
      else (0, clearSectors (4 + 2 * secs) 16 0 (clearFats 4 (4 + secs) (secs - 1) 1 m.2))

/-! format_fat32. -/

def spc32 (total : Nat) : Nat := if total < 1 * 1024 * 1024 * 2 then 8 else 16

/-- `fat_secs`: reserved 32, two FATs; the sum in the numerator can wrap. -/
def fatSecs32 (total : Nat) : Nat :=
  let den := spc32 total * 128 + 2 * 2
  let secs := u32 (u32 (total - 32 + 8) + den - 1) / den
  if secs = 0 then 1 else secs

def boot32 (hidden : Nat) (label : Option (List UInt8)) (total : Nat) : Buffer :=
  let b := poke blankSector 0 [0xEB, 0x58, 0x90]
  let b := poke b 3 (ascii "ZENBITE ")
  let b := poke b 11 (bytesOf sectorSize 2)
  let b := poke b 13 (bytesOf (spc32 total) 1)
  let b := poke b 14 (bytesOf 32 2)
  let b := poke b 16 [2]
  let b := poke b 21 [0xF8]
  let b := poke b 24 [63]
  let b := poke b 26 [16]
  let b := poke b 28 (bytesOf hidden 4)
  let b := poke b 32 (bytesOf total 4)
  let b := poke b 36 (bytesOf (fatSecs32 total) 4)
  let b := poke b 44 (bytesOf 2 4)
  let b := poke b 48 [1]
  let b := poke b 50 [6]
  let b := poke b 64 [0x80]
  let b := poke b 66 [0x29]
  let b := poke b 67 [0x37, 0x12, 0x34, 0x56]
  let b := poke b 71 (volumeLabel label)
  let b := poke b 82 (ascii "FAT32   ")
  poke b 510 [0x55, 0xAA]

def fsInfo : Buffer :=
  let b := poke blankSector 0 [0x52, 0x52, 0x61, 0x41]
  let b := poke b 484 [0x72, 0x72, 0x41, 0x61]
  let b := poke b 488 [0xFF, 0xFF, 0xFF, 0xFF]
  let b := poke b 492 [0xFF, 0xFF, 0xFF, 0xFF]
  poke b 510 [0x55, 0xAA]

def fatFirst32 : Buffer :=
  poke blankSector 0 [0xF8, 0xFF, 0xFF, 0x0F, 0xFF, 0xFF, 0xFF, 0x0F, 0xF8, 0xFF, 0xFF, 0x0F]

def formatFat32 (hidden : Nat) (label : Option (List UInt8)) (total : Nat) (d : Disk) :
    Int × Disk :=
  let secs := fatSecs32 total
  let b := d.write 0 1 (boot32 hidden label total)
  if b.1 < 0 then (-1, b.2)
  else
    let d := (b.2.write 6 1 (boot32 hidden label total)).2
    let d := (d.write 1 1 fsInfo).2
    let d := (d.write 7 1 fsInfo).2
    let f := d.write 32 1 fatFirst32
    if f.1 < 0 then (-1, f.2)
    else
      let m := f.2.write (32 + secs) 1 fatFirst32
      if m.1 < 0 then (-1, m.2)
      else
        (0, clearSectors (32 + 2 * secs) (spc32 total) 0
          (clearFats 32 (32 + secs) (secs - 1) 1 m.2))

/-- `hidden` is the partition's offset on its parent disk, 0 for a raw disk. -/
def fsFormat (hidden : Nat) (label : Option (List UInt8)) (d : Disk) : Int × Disk :=
  if d.present = false then (-1, d)
  else if d.sectors < 1024 then (-1, d)
  else if d.sectors < 512 * 1024 * 2 then formatFat16 hidden label d.sectors d
  else formatFat32 hidden label d.sectors d

end Zenbite.Fat
