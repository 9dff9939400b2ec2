/-!
# Instances

Powers of numbers, and the equality of byte arrays, are those of the core library, whatever other
instances are at hand where a definition is made or used.
-/

attribute [instance (high), default_instance 20000] instPowNat

attribute [instance (high)] ByteArray.instDecidableEq
