import Ece391Os.Kernel.Strings

namespace Ece391Os

open Data

/-! `file_system.c` over the image in memory.  Offsets from `fs_start` are
`uint32_t`; the boot block holds its counts in the first words and its 64-byte
directory entries from byte 64 on. -/

def fourKb : Nat := 4096

/-- Offset arithmetic on `fs_start` wraps at 2^32. -/
def wrap (offset : Nat) : Nat := offset % 4294967296

def numDentries (image : Memory) : Nat := image.word 0

def numInodes (image : Memory) : Nat := image.word 4

def numDblocks (image : Memory) : Nat := image.word 8

def dentryAddr (index : Nat) : Nat := 64 + 64 * index

structure Dentry where
  fileName : Memory
  fileType : Nat
  inodeNum : Nat

/-- The name field of a directory entry, with the memory after it. -/
def dentryName (image : Memory) (index : Nat) : Memory :=
  fun k => image (dentryAddr index + k)

def dentryType (image : Memory) (index : Nat) : Nat :=
  image.word (dentryAddr index + 32)

def dentryInode (image : Memory) (index : Nat) : Nat :=
  image.word (dentryAddr index + 36)

def dentryMatches (image : Memory) (filename : CString) (index : Nat) : Bool :=
  strncmp (dentryName image index) filename.memory filename.strlen = 0 ∧
    strncmp (dentryName image index) filename.memory nameLength = 0

def findDentry (image : Memory) (filename : CString) : Option Nat :=
  (List.range (numDentries image)).find? (dentryMatches image filename)

def copyDentry (image : Memory) (index : Nat) : Dentry where
  fileName := strncpy (fun _ => 0) (dentryName image index) nameLength
  fileType := dentryType image index
  inodeNum := dentryInode image index

/-- `none` is the return value -1. -/
def readDentryByName (image : Memory) (filename : CString) : Option Dentry :=
  (findDentry image filename).map (copyDentry image)

def readDentryByIndex (image : Memory) (index : Nat) : Option Dentry :=
  if numDentries image ≤ index then none else some (copyDentry image index)

def inodeAddr (inode : Nat) : Nat := wrap (fourKb * (inode + 1))

def fileSize (image : Memory) (inode : Nat) : Nat := image.word (inodeAddr inode)

def dblockAddr (image : Memory) (dblockNum : Nat) : Nat :=
  wrap ((numInodes image + 1) * fourKb + dblockNum * fourKb)

structure ReadLoop where
  cur : Nat
  copiedLength : Nat
  numAddr : Nat
  dblock : Nat
  buf : Memory

def copyLength (stop cur : Nat) : Nat :=
  if fourKb - cur % fourKb > wrap (stop + 4294967296 - cur) then
    wrap (stop + 4294967296 - cur)
  else
    fourKb - cur % fourKb

def readIteration (image : Memory) (stop : Nat) (loop : ReadLoop) : ReadLoop :=
  let length := copyLength stop loop.cur
  let numAddr := loop.numAddr + 4
  { cur := wrap (loop.cur + length)
    copiedLength := wrap (loop.copiedLength + length)
    numAddr := numAddr
    dblock := dblockAddr image (image.word numAddr)
    buf := Memory.blit image (loop.dblock + loop.cur % fourKb) loop.buf
      loop.copiedLength length }

/-- `while(cur != end)`.  Every iteration moves `cur` towards `stop`, so the
distance between them bounds the number of iterations. -/
def readWhile (image : Memory) (stop : Nat) : Nat → ReadLoop → ReadLoop
  | 0, loop => loop
  | fuel + 1, loop =>
      if loop.cur = stop then loop
      else readWhile image stop fuel (readIteration image stop loop)

def readData (image : Memory) (inode offset : Nat) (buf : Memory)
    (length : Nat) : Int × Memory :=
  if numInodes image ≤ inode then (-1, buf)
  else if fileSize image inode < offset then (0, buf)
  else
    let sum := wrap (offset + length)
    let stop := if fileSize image inode < sum then fileSize image inode else sum
    let numAddr := inodeAddr inode + 4 + 4 * (offset / fourKb)
    let final := readWhile image stop (wrap (stop + 4294967296 - offset))
      { cur := offset
        copiedLength := 0
        numAddr := numAddr
        dblock := dblockAddr image (image.word numAddr)
        buf := buf }
    (i32 final.copiedLength, final.buf)

structure ReadResult where
  ret : Int
  desc : FileDesc
  buf : Memory

def fileRead (image : Memory) (desc : FileDesc) (buf : Memory)
    (numBytes : Int) : ReadResult :=
  if desc.inode = -1 then ⟨-1, desc, buf⟩
  else
    let answer := readData image (u32 desc.inode) (u32 desc.filePosition) buf
      (u32 numBytes)
    if answer.1 = -1 then ⟨-1, desc, answer.2⟩
    else
      ⟨answer.1,
        { desc with filePosition := i32 (desc.filePosition + answer.1) },
        answer.2⟩

/-- `dir_read` compares the signed position with an unsigned count. -/
def dirRead (image : Memory) (desc : FileDesc) (buf : Memory) : ReadResult :=
  if desc.filePosition = -1 then ⟨-1, desc, buf⟩
  else if numDentries image ≤ u32 desc.filePosition then ⟨0, desc, buf⟩
  else
    match readDentryByIndex image (u32 desc.filePosition) with
    | none => ⟨-1, desc, buf⟩
    | some dentry =>
        ⟨nameLength,
          { desc with filePosition := i32 (desc.filePosition + 1) },
          strncpy buf dentry.fileName nameLength⟩

end Ece391Os
