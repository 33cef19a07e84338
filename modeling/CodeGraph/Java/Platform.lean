/-!
# Platform types

The class names that a Java file sees without importing them, and those of platform packages that
are commonly imported whole.
-/

namespace CodeGraph.Java.Platform

/-- Names of `java.lang`, visible in every file. -/
def lang : List String := [
  "AutoCloseable", "Boolean", "Byte", "Character", "CharSequence", "Class", "ClassCastException",
  "Cloneable", "CloneNotSupportedException", "Comparable", "Deprecated", "Double", "Enum", "Error",
  "Exception", "Float", "FunctionalInterface", "IllegalArgumentException", "IllegalStateException",
  "IndexOutOfBoundsException", "Integer", "InterruptedException", "Iterable", "Long", "Math",
  "NullPointerException", "Number", "NumberFormatException", "Object", "Override", "Process",
  "ProcessBuilder", "Record", "Runnable", "Runtime", "RuntimeException", "SafeVarargs", "Short",
  "StackTraceElement", "String", "StringBuffer", "StringBuilder", "SuppressWarnings", "System",
  "Thread", "ThreadLocal", "Throwable", "UnsupportedOperationException", "Void"]

/-- Names of packages that are imported whole. -/
def packages : List (String × List String) := [
  ("java.util", [
    "ArrayDeque", "ArrayList", "Arrays", "Collection", "Collections", "Comparator", "Date", "Deque",
    "HashMap", "HashSet", "Iterator", "LinkedHashMap", "LinkedHashSet", "LinkedList",
    "List", "Locale", "Map", "Objects", "Optional", "Properties", "Queue", "Random", "Scanner",
    "Set", "TreeMap", "TreeSet", "UUID"]),
  ("java.util.function", [
    "BiConsumer", "BiFunction", "BinaryOperator", "BiPredicate", "Consumer", "Function",
    "Predicate", "Supplier", "UnaryOperator"]),
  ("java.util.stream", ["Collectors", "IntStream", "Stream"]),
  ("java.util.concurrent", [
    "Callable", "CompletableFuture", "ConcurrentHashMap", "ExecutorService", "Executors", "Future",
    "TimeUnit"]),
  ("java.io", [
    "BufferedReader", "BufferedWriter", "Closeable", "File", "FileInputStream", "FileOutputStream",
    "FileReader", "FileWriter", "IOException", "InputStream", "InputStreamReader", "OutputStream",
    "PrintStream", "PrintWriter", "Reader", "Serializable", "UncheckedIOException", "Writer"]),
  ("java.nio.file", ["Files", "Path", "Paths"]),
  ("java.nio.charset", ["Charset", "StandardCharsets"]),
  ("java.time", ["Duration", "Instant", "LocalDate", "LocalDateTime"])]

/-- Whether a package that is imported whole has a class of that name. -/
def holds (package simple : String) : Bool :=
  packages.any fun (p, names) => p == package && names.contains simple

end CodeGraph.Java.Platform
