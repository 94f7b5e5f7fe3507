import WotAv.Lib.Bytes

/-!
# JPEG streams

The markers that a reader of the size of an image looks for.
-/

namespace WotAv.Lib.Jpeg

def SOI : Bytes := [0xff, 0xd8]
def EOI : Bytes := [0xff, 0xd9]
def SOS : UInt8 := 0xda

def SOF : List UInt8 := [0xc0, 0xc1, 0xc2]

end WotAv.Lib.Jpeg
