import Mathlib.Data.BitVec

set_option autoImplicit false

namespace CryptoYen

-- An address and port: the sixteen bytes of ip as a number, the first byte lowest.
structure CService where
  ip : BitVec 128
  port : BitVec 16
  deriving DecidableEq, Repr

abbrev CNetAddr := BitVec 128

namespace CNetAddr

variable (addr : CNetAddr)

def ip (i : Nat) : Nat := (addr.toNat / 256 ^ i) % 256

def getByte (n : Nat) : Nat := addr.ip (15 - n)

def startsWith (bytes : List Nat) : Bool := (List.range bytes.length).map addr.ip == bytes

def pchIPv4 : List Nat := [0, 0, 0, 0, 0, 0, 0, 0, 0, 0, 0xff, 0xff]
def pchOnionCat : List Nat := [0xFD, 0x87, 0xD8, 0x7E, 0xEB, 0x43]

def isIPv4 : Bool := addr.startsWith pchIPv4

def isRFC1918 : Bool :=
  addr.isIPv4 && (addr.getByte 3 == 10 || (addr.getByte 3 == 192 && addr.getByte 2 == 168) ||
    (addr.getByte 3 == 172 && decide (16 ≤ addr.getByte 2 ∧ addr.getByte 2 ≤ 31)))

def isRFC2544 : Bool :=
  addr.isIPv4 && addr.getByte 3 == 198 && (addr.getByte 2 == 18 || addr.getByte 2 == 19)

def isRFC3927 : Bool := addr.isIPv4 && (addr.getByte 3 == 169 && addr.getByte 2 == 254)

def isRFC6598 : Bool :=
  addr.isIPv4 && addr.getByte 3 == 100 && decide (64 ≤ addr.getByte 2 ∧ addr.getByte 2 ≤ 127)

def isRFC5737 : Bool :=
  addr.isIPv4 &&
    ((addr.getByte 3 == 192 && addr.getByte 2 == 0 && addr.getByte 1 == 2) ||
      (addr.getByte 3 == 198 && addr.getByte 2 == 51 && addr.getByte 1 == 100) ||
      (addr.getByte 3 == 203 && addr.getByte 2 == 0 && addr.getByte 1 == 113))

def isRFC3849 : Bool := addr.startsWith [0x20, 0x01, 0x0D, 0xB8]

def isRFC4862 : Bool := addr.startsWith [0xFE, 0x80, 0, 0, 0, 0, 0, 0]

def isRFC4193 : Bool := addr.getByte 15 &&& 0xFE == 0xFC

def isRFC4843 : Bool :=
  addr.startsWith [0x20, 0x01, 0x00] && addr.getByte 12 &&& 0xF0 == 0x10

def isTor : Bool := addr.startsWith pchOnionCat

def isLocal : Bool :=
  (addr.isIPv4 && (addr.getByte 3 == 127 || addr.getByte 3 == 0)) ||
    addr.startsWith [0, 0, 0, 0, 0, 0, 0, 0, 0, 0, 0, 0, 0, 0, 0, 1]

-- The first test is for addresses that were read three bytes off.
def isValid : Bool :=
  !addr.startsWith (pchIPv4.drop 3) && addr != 0 && !addr.isRFC3849 &&
    !(addr.startsWith (pchIPv4 ++ [255, 255, 255, 255]) ||
      addr.startsWith (pchIPv4 ++ [0, 0, 0, 0]))

def isRoutable : Bool :=
  addr.isValid &&
    !(addr.isRFC1918 || addr.isRFC2544 || addr.isRFC3927 || addr.isRFC4862 || addr.isRFC6598 ||
      addr.isRFC5737 || (addr.isRFC4193 && !addr.isTor) || addr.isRFC4843 || addr.isLocal)

end CNetAddr

def NODE_NETWORK : UInt64 := 1

structure CAddress extends CService where
  nServices : UInt64
  nTime : UInt32
  deriving DecidableEq, Repr

namespace CAddress

def null : CAddress := ⟨⟨0, 0⟩, NODE_NETWORK, 100000000⟩

end CAddress

end CryptoYen
