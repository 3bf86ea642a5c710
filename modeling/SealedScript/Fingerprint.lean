import SealedScript.Fingerprint.Blake3
import SealedScript.Numeral

/-!
Fingerprints of artifacts: the BLAKE3 hash of the text in UTF-8, in lower-case hexadecimal behind the
name of the hash.
-/

namespace SealedScript
set_option autoImplicit false

def fingerprint (t : Text) : Text := "blake3:" ++ Numeral.hexBytes (Blake3.hash (Utf8.encode t))

end SealedScript
