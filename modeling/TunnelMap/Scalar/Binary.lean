import TunnelMap.Scalar

/-! Binary floating point as arithmetic: 64 bits for positions and 32 bits for the bodies of
the layout. -/

namespace TunnelMap

instance : Scalar Float where
  decidableLT := inferInstance
  decidableLE := inferInstance
  ofNat := Float.ofNat
  ofDecimal := OfScientific.ofScientific
  sqrt := Float.sqrt
  cos := Float.cos
  sin := Float.sin
  ln := Float.log
  floor := Float.floor
  pi := 3.141592653589793
  ln2 := 0.6931471805599453
  infinity := 1 / 0
  toWord := Float.toUInt32

instance : Scalar Float32 where
  decidableLT := inferInstance
  decidableLE := inferInstance
  ofNat := Float32.ofNat
  ofDecimal := OfScientific.ofScientific
  sqrt := Float32.sqrt
  cos := Float32.cos
  sin := Float32.sin
  ln := Float32.log
  floor := Float32.floor
  pi := 3.1415927
  ln2 := 0.6931472
  infinity := 1 / 0
  toWord := Float32.toUInt32

instance : Precision Float Float32 where
  narrow := Float.toFloat32
  widen := Float32.toFloat

end TunnelMap
