import KernelMaps.Codec.Hex
import KernelMaps.Codec.Integer
import KernelMaps.Codec.Fields

/-!
The codecs for the elements of a map: hexadecimal digits, one integer, and a row of integers.
-/
