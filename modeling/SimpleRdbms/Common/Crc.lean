namespace SimpleRdbms

def POLYNOMIAL : UInt32 := 0xEDB88320

def crcBit (crc : UInt32) : UInt32 :=
  if crc &&& 1 ≠ 0 then POLYNOMIAL ^^^ (crc >>> 1) else crc >>> 1

def crcTable (byte : UInt32) : UInt32 :=
  Nat.repeat crcBit 8 byte

def Crc.table : List UInt32 := (List.range 256).map fun byte => crcTable (UInt32.ofNat byte)

def crc32 (data : List UInt8) : UInt32 :=
  data.foldl (fun crc byte => crcTable ((crc ^^^ byte.toUInt32) &&& 0xFF) ^^^ (crc >>> 8))
    0xFFFFFFFF ^^^ 0xFFFFFFFF

-- The check value published with the CRC-32 polynomial: the checksum of "123456789".
example : crc32 [0x31, 0x32, 0x33, 0x34, 0x35, 0x36, 0x37, 0x38, 0x39] = 0xCBF43926 := by decide +kernel

end SimpleRdbms
